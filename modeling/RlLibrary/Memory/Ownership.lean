import RlLibrary.Memory.Interleaving

namespace RlLibrary.Memory

open Foundation MemState

variable {ι : Type*}

structure Owned (s : MemState) (roles : Roles ι) : Prop where
  live : ∀ a, s.heap a = none ↔ roles a = none
  distinct : s.nodeBlocks.Nodup
  linked : ∀ n ∈ s.gMemHeader, roles n.addr = some (.node none)

def Roles.Mine (t : ι) (roles : Roles ι) (p : Addr) : Prop :=
  ∃ bytes site m, roles p = some (.block (some t) bytes site m)

def Point.Owns (t : ι) (roles : Roles ι) : Point → Prop
  | returned _ => True
  | malloc _ _ _ => True
  | mallocNode ptr _ _ => roles.Mine t ptr
  | discard ptr => roles.Mine t ptr
  | push node => roles node.addr = some (.node (some t)) ∧ roles.Mine t node.ptr
  | realloc ptr _ _ => roles.Mine t ptr
  | search _ newPtr _ _ => roles.Mine t newPtr
  | unlink ptr => roles.Mine t ptr
  | free ptr => roles.Mine t ptr

theorem Undisturbed.mine {u : ι} {roles roles' : Roles ι} (h : Undisturbed u roles roles') {p : Addr}
    (hp : roles.Mine u p) : roles'.Mine u p := by
  obtain ⟨bytes, site, m, hp⟩ := hp
  exact ⟨bytes, site, m, h p _ hp rfl⟩

theorem Undisturbed.owns {u : ι} {roles roles' : Roles ι} (h : Undisturbed u roles roles')
    {pt : Point} (hp : pt.Owns u roles) : pt.Owns u roles' := by
  cases pt with
  | returned reply => trivial
  | malloc bytes size site => trivial
  | push node => exact ⟨h _ _ hp.1 rfl, h.mine hp.2⟩
  | mallocNode ptr size site => exact h.mine hp
  | discard ptr => exact h.mine hp
  | realloc ptr size site => exact h.mine hp
  | search ptr newPtr size site => exact h.mine hp
  | unlink ptr => exact h.mine hp
  | free ptr => exact h.mine hp

structure Keeps (t : ι) (roles : Roles ι) (s' : MemState) (roles' : Roles ι) (pt' : Point) :
    Prop where
  owned : Owned s' roles'
  owns : pt'.Owns t roles'
  undisturbed : ∀ u, u ≠ t → Undisturbed u roles roles'

namespace Keeps

variable {t : ι} {s : MemState} {roles : Roles ι} {pt' : Point} {p : Addr}

theorem stay (h : Owned s roles) (hp : pt'.Owns t roles) : Keeps t roles s roles pt' :=
  ⟨h, hp, fun u _ => .refl u roles⟩

theorem acquire (h : Owned s roles) {a : Addr} (ha : s.heap a = none) (n : ℕ) (r : Role ι)
    (hp : pt'.Owns t (Function.update roles a (some r))) :
    Keeps t roles (s.allocate a n) (Function.update roles a (some r)) pt' where
  owned := by
    refine ⟨live_update h.live a (by simp), h.distinct, linked_update h.linked ?_ _⟩
    rw [(h.live a).mp ha]
    exact (Option.some_ne_none _).symm
  owns := hp
  undisturbed u _ := by
    apply Undisturbed.update
    intro r' hr'
    rw [(h.live a).mp ha] at hr'
    cases hr'

theorem drop (h : Owned s roles) (hp : roles.Mine t p)
    (hpt : pt'.Owns t (Function.update roles p none)) :
    Keeps t roles (s.release p) (Function.update roles p none) pt' where
  owned := by
    obtain ⟨bytes, site, m, hp⟩ := hp
    exact ⟨live_update h.live p (by simp), h.distinct, linked_update h.linked (by simp [hp]) _⟩
  owns := hpt
  undisturbed u hu := by
    obtain ⟨bytes, site, m, hp⟩ := hp
    exact Undisturbed.update_held roles hp (by simpa [Role.holder] using hu.symm) _

theorem relabel (h : Owned s roles) {o o' : Option ι} {bytes bytes' : ℕ} {site site' : CallSite}
    {m m' : Option Addr} (hp : roles p = some (.block o bytes site m)) (ho : o = none ∨ o = some t)
    (hpt : pt'.Owns t (Function.update roles p (some (.block o' bytes' site' m')))) :
    Keeps t roles s (Function.update roles p (some (.block o' bytes' site' m'))) pt' where
  owned := ⟨live_relabel h.live hp, h.distinct, linked_update h.linked (by simp [hp]) _⟩
  owns := hpt
  undisturbed u hu := by
    apply Undisturbed.update_held roles hp
    rcases ho with rfl | rfl
    · simp [Role.holder]
    · simpa [Role.holder] using hu.symm

theorem move (h : Owned s roles) {q : Addr} (hq : s.heap.Movable p q) (n : ℕ) {o : Option ι}
    {site : CallSite} (hp : roles.Mine t p)
    (hpt : pt'.Owns t (Function.update (Function.update roles p none) q
      (some (.block o n site none)))) :
    Keeps t roles (s.resize p q n)
      (Function.update (Function.update roles p none) q (some (.block o n site none))) pt' := by
  have hdrop : Keeps t roles (s.release p) (Function.update roles p none) (.returned .nothing) :=
    .drop h hp trivial
  have hacquire : Keeps t (Function.update roles p none) (s.resize p q n)
      (Function.update (Function.update roles p none) q (some (.block o n site none))) pt' :=
    .acquire hdrop.owned hq.free n _ hpt
  exact ⟨hacquire.owned, hpt, fun u hu => (hdrop.undisturbed u hu).trans (hacquire.undisturbed u hu)⟩

end Keeps

section Step

variable {t : ι} {s : MemState} {roles : Roles ι}

theorem keeps_push (h : Owned s roles) {n : MemNode} (hp : (Point.push n).Owns t roles) :
    Keeps t roles (s.pushNode n) ((Point.push n).assign t s none roles)
      (.returned (.pointer (some n.ptr))) := by
  obtain ⟨ha, bytes, site, m, hp⟩ := hp
  have hassign : (Point.push n).assign t s none roles =
      Function.update (Function.update roles n.addr (some (.node none)))
        n.ptr (some (.block none bytes site (some n.addr))) := by
    simp [Point.assign, hp, Role.mark]
  have hne : n.ptr ≠ n.addr := by
    intro he
    rw [he, ha] at hp
    cases hp
  have hp' : Function.update roles n.addr (some (.node none)) n.ptr =
      some (.block (some t) bytes site m) := by
    rw [Function.update_of_ne hne]
    exact hp
  rw [hassign]
  refine ⟨⟨live_relabel (live_relabel h.live ha) hp', ?_, ?_⟩, trivial, fun u hu => ?_⟩
  · have hnew : n.addr ∉ s.nodeBlocks := by
      intro hm
      obtain ⟨k, hk, he⟩ := List.mem_map.mp hm
      have hlinked := h.linked k hk
      rw [he, ha] at hlinked
      cases hlinked
    exact List.nodup_cons.mpr ⟨hnew, h.distinct⟩
  · apply linked_update _ (by simp [hp'])
    intro k hk
    rcases List.mem_cons.mp hk with rfl | hk
    · exact Function.update_self ..
    · exact linked_update h.linked (by simp [ha]) _ k hk
  · apply Undisturbed.trans (Undisturbed.update_held roles ha _ (some (.node none)))
    · apply Undisturbed.update_held _ hp'
      simpa [Role.holder] using hu.symm
    · simpa [Role.holder] using hu.symm

theorem keeps_rekey (h : Owned s roles) {p q : Addr} {size : BitVec 32} {site : CallSite}
    {s' : MemState} (hs : s.rekeyNode p q size site = some s') (hq : roles.Mine t q) (m : Option Addr) :
    Keeps t roles s' (Function.update roles q ((roles q).map (Role.mark none m)))
      (.returned (.pointer (some q))) := by
  obtain ⟨bytes, site', m', hq⟩ := hq
  obtain ⟨before, cur, after, hl, rfl⟩ := rekeyNode_eq_some hs
  have haddrs : (before ++ ⟨site, cur.addr, q, size⟩ :: after).map MemNode.addr = s.nodeBlocks := by
    rw [nodeBlocks, (locate_eq_some hl).1]
    simp
  have hrelabel : Keeps t roles s (Function.update roles q (some (.block none bytes site' m)))
      (.returned (.pointer (some q))) := .relabel h hq (Or.inr rfl) trivial
  rw [hq]
  refine ⟨⟨hrelabel.owned.live, ?_, ?_⟩, trivial, hrelabel.undisturbed⟩
  · change (List.map MemNode.addr _).Nodup
    rw [haddrs]
    exact h.distinct
  · intro n hn
    have hm : n.addr ∈ s.nodeBlocks := haddrs ▸ List.mem_map_of_mem hn
    obtain ⟨k, hk, he⟩ := List.mem_map.mp hm
    exact he ▸ hrelabel.owned.linked k hk

theorem keeps_unlink (h : Owned s roles) {p : Addr} {before after : List MemNode} {temp : MemNode}
    {s' : MemState} (hl : locate MemNode.ptr p s.gMemHeader = some (before, temp, after))
    (hs : s.unlinkNode p = some s') (hp : roles.Mine t p) :
    Keeps t roles s' (Function.update (Function.update roles p
      ((roles p).map (Role.mark (some t) none))) temp.addr none) (.free p) := by
  obtain ⟨bytes, site, m, hp⟩ := hp
  obtain ⟨before', temp', after', hl', rfl⟩ := unlinkNode_eq_some hs
  rw [hl] at hl'
  cases hl'
  have htemp : roles temp.addr = some (.node none) := h.linked temp (locate_mem hl)
  have hne : p ≠ temp.addr := by
    rintro rfl
    rw [hp] at htemp
    cases htemp
  have hsub : (before ++ after).Sublist s.gMemHeader := by
    rw [(locate_eq_some hl).1]
    exact List.Sublist.append_left (List.sublist_cons_self ..) _
  have hdistinct := h.distinct
  rw [nodeBlocks, (locate_eq_some hl).1, List.map_append, List.map_cons, List.nodup_middle,
    List.nodup_cons, ← List.map_append] at hdistinct
  have hmine : (Point.free p).Owns t (Function.update roles p (some (.block (some t) bytes site none))) :=
    ⟨bytes, site, none, Function.update_self ..⟩
  have hrelabel := Keeps.relabel h hp (Or.inr rfl) hmine
  have htemp' : Function.update roles p (some (.block (some t) bytes site none)) temp.addr =
      some (.node none) := by
    rw [Function.update_of_ne hne.symm]
    exact htemp
  rw [hp]
  refine ⟨⟨live_update hrelabel.owned.live _ (by simp), hdistinct.2, ?_⟩, ?_, fun u hu => ?_⟩
  · intro n hn
    have hne' : n.addr ≠ temp.addr := by
      intro he
      exact hdistinct.1 (he ▸ List.mem_map_of_mem hn)
    refine (Function.update_of_ne hne' ..).trans ?_
    exact hrelabel.owned.linked n (hsub.subset hn)
  · exact ⟨bytes, site, none, (Function.update_of_ne hne ..).trans (Function.update_self ..)⟩
  · apply (hrelabel.undisturbed u hu).trans
    apply Undisturbed.update_held _ htemp'
    simp [Role.holder]

theorem keeps_call (h : Owned s roles) {request : Request}
    (hr : ∀ p ∈ request.pointer, roles.IsClient p) :
    Keeps t roles s ((request.enter s).take t roles) (request.enter s) := by
  have hpass : ∀ p, roles.IsClient p → ∀ pt : Point,
      (∀ roles' : Roles ι, roles'.Mine t p → pt.Owns t roles') →
      Keeps t roles s (Function.update roles p ((roles p).map (Role.pass (some t)))) pt := by
    intro p hp pt hpt
    unfold Roles.IsClient at hp
    split at hp
    next bytes site m hrole =>
      rw [hrole]
      exact .relabel h hrole (Or.inl rfl) (hpt _ ⟨bytes, site, m, Function.update_self ..⟩)
    next => exact hp.elim
  cases request with
  | malloc size site =>
    by_cases hz : size = 0#32
    · simp only [Request.enter, hz, ↓reduceIte, Point.take]
      exact .stay h trivial
    · simp only [Request.enter, hz, ↓reduceIte, Point.take]
      exact .stay h trivial
  | calloc block count site =>
    by_cases hz : block = 0#32 ∨ count = 0#32
    · simp only [Request.enter, hz, ↓reduceIte, Point.take]
      exact .stay h trivial
    · simp only [Request.enter, hz, ↓reduceIte, Point.take]
      exact .stay h trivial
  | realloc ptr size site =>
    by_cases hz : size = 0#32
    · simp only [Request.enter, hz, ↓reduceIte, Point.take]
      exact .stay h trivial
    · cases ptr with
      | none =>
        simp only [Request.enter, hz, ↓reduceIte, Point.take]
        exact .stay h trivial
      | some p =>
        simp only [Request.enter, hz, ↓reduceIte, Point.take]
        exact hpass p (hr p rfl) _ fun _ hmine => hmine
  | free ptr =>
    cases ptr with
    | none => exact .stay h trivial
    | some p =>
      simp only [Request.enter]
      by_cases ht : s.rlMemoryTraceState = true
      · rw [if_pos ht]
        exact hpass p (hr p rfl) _ fun _ hmine => hmine
      · rw [if_neg ht]
        exact hpass p (hr p rfl) _ fun _ hmine => hmine

theorem keeps_step (h : Owned s roles) {pt : Point} (hp : pt.Owns t roles) {ans : Option Addr}
    (hr : (Action.step ans).Ready ⟨s, roles⟩ pt) :
    Keeps t roles (pt.step s ans).1 (pt.assign t s ans roles) (pt.step s ans).2 := by
  cases pt with
  | returned reply => exact hr.elim
  | malloc bytes size site =>
    cases ans with
    | none => exact .stay h trivial
    | some p =>
      cases ht : s.rlMemoryTraceState with
      | false =>
        simp only [Point.step, Point.assign, ht, Bool.false_eq_true, ↓reduceIte]
        exact .acquire h (hr p rfl) bytes _ trivial
      | true =>
        simp only [Point.step, Point.assign, ht, ↓reduceIte]
        exact .acquire h (hr p rfl) bytes _ ⟨_, _, _, Function.update_self ..⟩
  | mallocNode ptr size site =>
    cases ans with
    | none => exact .stay h hp
    | some a =>
      have hfree : s.heap a = none := hr a rfl
      obtain ⟨bytes, site', m, hrole⟩ := hp
      have hne : ptr ≠ a := by
        rintro rfl
        rw [(h.live _).mp hfree] at hrole
        cases hrole
      refine .acquire h hfree sizeofMemNode _ ⟨Function.update_self .., bytes, site', m, ?_⟩
      rw [Function.update_of_ne hne]
      exact hrole
  | discard ptr => exact .drop h hp trivial
  | push node => exact keeps_push h hp
  | realloc ptr size site =>
    cases ans with
    | none =>
      obtain ⟨bytes, site', m, hrole⟩ := hp
      simp only [Point.step, Point.assign, hrole, Option.map_some, Role.pass]
      exact .relabel h hrole (Or.inr rfl) trivial
    | some q =>
      cases ht : s.rlMemoryTraceState with
      | false =>
        simp only [Point.step, Point.assign, ht, Bool.false_eq_true, ↓reduceIte]
        exact .move h (hr q rfl) _ hp trivial
      | true =>
        simp only [Point.step, Point.assign, ht, ↓reduceIte]
        exact .move h (hr q rfl) _ hp ⟨_, _, _, Function.update_self ..⟩
  | search ptr newPtr size site =>
    cases hl : locate MemNode.ptr ptr s.gMemHeader with
    | none =>
      have hs : s.rekeyNode ptr newPtr size site = none := by
        rw [rekeyNode, hl]
        rfl
      simp only [Point.step, Point.assign, hl, hs]
      exact .stay ⟨h.live, h.distinct, h.linked⟩ hp
    | some found =>
      obtain ⟨before, cur, after⟩ := found
      obtain ⟨s', hs⟩ : ∃ s', s.rekeyNode ptr newPtr size site = some s' :=
        ⟨_, by rw [rekeyNode, hl]; rfl⟩
      simp only [Point.step, Point.assign, hl, hs]
      exact keeps_rekey h hs hp _
  | unlink ptr =>
    cases hl : locate MemNode.ptr ptr s.gMemHeader with
    | none =>
      have hs : s.unlinkNode ptr = none := by
        rw [unlinkNode, hl]
        rfl
      obtain ⟨bytes, site, m, hrole⟩ := hp
      simp only [Point.step, Point.assign, hl, hs, hrole, Option.map_some, Role.pass]
      have hpassed : Owned s.passLock roles := ⟨h.live, h.distinct, h.linked⟩
      exact .relabel hpassed hrole (Or.inr rfl) trivial
    | some found =>
      obtain ⟨before, temp, after⟩ := found
      obtain ⟨s', hs⟩ : ∃ s', s.unlinkNode ptr = some s' := ⟨_, by rw [unlinkNode, hl]; rfl⟩
      simp only [Point.step, Point.assign, hl, hs]
      exact keeps_unlink h hl hs hp
  | free ptr => exact .drop h hp trivial

end Step

section Runs

variable [DecidableEq ι]

theorem keeps_thread {c : Shared ι × (ι → Point)} {i : ι × Action} (h : Owned c.1.mem c.1.roles)
    (hp : (c.2 i.1).Owns i.1 c.1.roles) (hr : i.2.Ready c.1 (c.2 i.1)) :
    Keeps i.1 c.1.roles ((threads ι).step i.1 c.1 (c.2 i.1) i.2).1.mem
      ((threads ι).step i.1 c.1 (c.2 i.1) i.2).1.roles
      ((threads ι).step i.1 c.1 (c.2 i.1) i.2).2 := by
  obtain ⟨t, action⟩ := i
  cases action with
  | call request =>
    cases hpt : c.2 t with
    | returned reply =>
      simp only [hpt] at hr
      exact keeps_call h hr
    | _ => simp [hpt, Action.Ready] at hr
  | step ans => exact keeps_step h hp hr

end Runs

end RlLibrary.Memory
