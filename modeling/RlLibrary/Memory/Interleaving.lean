import RlLibrary.Memory.Attachment

namespace RlLibrary.Memory

open Foundation MemState

variable {ι : Type*}

def tracedBlock : Option (Role ι) → ℕ
  | some (.block _ _ _ (some _)) => 1
  | _ => 0

def Point.searching (a : Addr) : Point → ℕ
  | search ptr _ _ _ => if ptr = a then 1 else 0
  | _ => 0

def Point.Holds (t : ι) (roles : Roles ι) : Point → Prop
  | returned _ => True
  | malloc bytes size _ => size = BitVec.ofNat 32 bytes
  | mallocNode ptr size site => ∃ bytes, size = BitVec.ofNat 32 bytes ∧
      roles ptr = some (.block (some t) bytes site none)
  | discard ptr => ∃ bytes site, roles ptr = some (.block (some t) bytes site none)
  | push node => roles node.addr = some (.node (some t)) ∧
      ∃ bytes, node.size = BitVec.ofNat 32 bytes ∧
        roles node.ptr = some (.block (some t) bytes node.toCallSite none)
  | realloc ptr _ _ => ∃ bytes site m, roles ptr = some (.block (some t) bytes site (some m))
  | search _ newPtr size site => roles newPtr = some (.block (some t) size.toNat site none)
  | unlink ptr => ∃ bytes site m, roles ptr = some (.block (some t) bytes site (some m))
  | free ptr => ∃ bytes site, roles ptr = some (.block (some t) bytes site none)

def Undisturbed (u : ι) (roles roles' : Roles ι) : Prop :=
  ∀ a r, roles a = some r → r.holder = some u → roles' a = some r

namespace Undisturbed

variable {u : ι} {roles roles' : Roles ι}

theorem refl (u : ι) (roles : Roles ι) : Undisturbed u roles roles := fun _ _ h _ => h

theorem trans {roles'' : Roles ι} (h : Undisturbed u roles roles')
    (h' : Undisturbed u roles' roles'') : Undisturbed u roles roles'' :=
  fun a r ha hr => h' a r (h a r ha hr) hr

theorem update (roles : Roles ι) {x : Addr} (hx : ∀ r, roles x = some r → r.holder ≠ some u)
    (v : Option (Role ι)) : Undisturbed u roles (Function.update roles x v) := by
  intro a r ha hr
  have hne : a ≠ x := by
    rintro rfl
    exact hx r ha hr
  rw [Function.update_of_ne hne]
  exact ha

theorem update_held (roles : Roles ι) {x : Addr} {r : Role ι} (hx : roles x = some r)
    (hr : r.holder ≠ some u) (v : Option (Role ι)) :
    Undisturbed u roles (Function.update roles x v) := by
  apply update
  intro r' hr'
  rw [hx] at hr'
  cases hr'
  exact hr

theorem holds {pt : Point} (h : Undisturbed u roles roles') (hp : pt.Holds u roles) :
    pt.Holds u roles' := by
  cases pt with
  | returned reply => trivial
  | malloc bytes size site => exact hp
  | mallocNode ptr size site =>
    obtain ⟨bytes, hsize, hb⟩ := hp
    exact ⟨bytes, hsize, h _ _ hb rfl⟩
  | discard ptr =>
    obtain ⟨bytes, site, hb⟩ := hp
    exact ⟨bytes, site, h _ _ hb rfl⟩
  | push node =>
    obtain ⟨hn, bytes, hsize, hb⟩ := hp
    exact ⟨h _ _ hn rfl, bytes, hsize, h _ _ hb rfl⟩
  | realloc ptr size site =>
    obtain ⟨bytes, site', m, hb⟩ := hp
    exact ⟨bytes, site', m, h _ _ hb rfl⟩
  | search ptr newPtr size site => exact h _ _ hp rfl
  | unlink ptr =>
    obtain ⟨bytes, site, m, hb⟩ := hp
    exact ⟨bytes, site, m, h _ _ hb rfl⟩
  | free ptr =>
    obtain ⟨bytes, site, hb⟩ := hp
    exact ⟨bytes, site, h _ _ hb rfl⟩

end Undisturbed

structure Effect (t : ι) (s : MemState) (roles : Roles ι) (pt : Point) (s' : MemState)
    (roles' : Roles ι) (pt' : Point) : Prop where
  tracing : s'.rlMemoryTraceState = s.rlMemoryTraceState
  attachment : Attachment s' roles'
  holds : pt'.Holds t roles'
  undisturbed : ∀ u, u ≠ t → Undisturbed u roles roles'
  balance : ∀ a, s'.blocks.count a + tracedBlock (roles a) + pt.searching a =
    s.blocks.count a + tracedBlock (roles' a) + pt'.searching a

theorem tracedBlock_update (roles : Roles ι) (x : Addr) (v : Option (Role ι)) (a : Addr) :
    tracedBlock (Function.update roles x v a) =
      if a = x then tracedBlock v else tracedBlock (roles a) := by
  by_cases ha : a = x
  · subst ha
    simp
  · simp [ha]

namespace Effect

variable {t : ι} {s : MemState} {roles : Roles ι}

theorem stay (h : Attachment s roles) {pt pt' : Point} (hp : pt'.Holds t roles)
    (hs : ∀ a, pt.searching a = pt'.searching a) : Effect t s roles pt s roles pt' where
  tracing := rfl
  attachment := h
  holds := hp
  undisturbed u _ := .refl u roles
  balance a := by rw [hs a]

theorem acquire (h : Attachment s roles) {pt pt' : Point} {a : Addr} (ha : s.heap a = none)
    (n : ℕ) {r : Role ι} (hr : r.holder = some t) (hm : r.tracedBy = none)
    (hp : pt'.Holds t (Function.update roles a (some r)))
    (hs : ∀ a, pt.searching a = pt'.searching a) :
    Effect t s roles pt (s.allocate a n) (Function.update roles a (some r)) pt' where
  tracing := rfl
  attachment := h.acquire ha n hr hm
  holds := hp
  undisturbed u _ := by
    apply Undisturbed.update
    simp [(h.live a).mp ha]
  balance b := by
    have hnone : tracedBlock (some r) = 0 := by
      cases r with
      | system => rfl
      | node holder => rfl
      | block holder bytes site m =>
        cases hm
        rfl
    have hfree : tracedBlock (roles a) = 0 := by
      rw [(h.live a).mp ha]
      rfl
    change s.blocks.count b + _ + _ = _
    rw [hs b, tracedBlock_update, hnone]
    by_cases hb : b = a
    · rw [if_pos hb, hb, hfree]
    · rw [if_neg hb]

theorem drop (h : Attachment s roles) {pt pt' : Point} {p : Addr} {bytes : ℕ} {site : CallSite}
    (hp : roles p = some (.block (some t) bytes site none))
    (hpt : pt'.Holds t (Function.update roles p none))
    (hs : ∀ a, pt.searching a = pt'.searching a) :
    Effect t s roles pt (s.release p) (Function.update roles p none) pt' where
  tracing := rfl
  attachment := h.drop hp
  holds := hpt
  undisturbed u hu := Undisturbed.update_held roles hp (by simpa [Role.holder] using hu.symm) _
  balance b := by
    change s.blocks.count b + _ + _ = _
    rw [hs b, tracedBlock_update]
    by_cases hb : b = p
    · rw [if_pos hb, hb, hp]
      rfl
    · rw [if_neg hb]

theorem pass (h : Attachment s roles) {pt pt' : Point} {p : Addr} {o o' : Option ι} {bytes : ℕ}
    {site : CallSite} {m : Addr} (hp : roles p = some (.block o bytes site (some m)))
    (ho : o = none ∨ o = some t)
    (hpt : pt'.Holds t (Function.update roles p (some (.block o' bytes site (some m)))))
    (hs : ∀ a, pt.searching a = pt'.searching a) :
    Effect t s roles pt s (Function.update roles p (some (.block o' bytes site (some m)))) pt' where
  tracing := rfl
  attachment := h.relabel hp (fun hm => by cases hm)
  holds := hpt
  undisturbed u hu := by
    apply Undisturbed.update_held roles hp
    rcases ho with rfl | rfl
    · simp [Role.holder]
    · simpa [Role.holder] using hu.symm
  balance b := by
    rw [hs b, tracedBlock_update]
    by_cases hb : b = p
    · rw [if_pos hb, hb, hp]
      rfl
    · rw [if_neg hb]

theorem push (h : Attachment s roles) {n : MemNode} (hp : (Point.push n).Holds t roles) :
    Effect t s roles (.push n) (s.pushNode n)
      ((Point.push n).assign t s none roles) (.returned (.pointer (some n.ptr))) := by
  obtain ⟨ha, bytes, hsize, hp⟩ := hp
  have hassign : (Point.push n).assign t s none roles =
      Function.update (Function.update roles n.addr (some (.node none)))
        n.ptr (some (.block none bytes n.toCallSite (some n.addr))) := by
    simp [Point.assign, hp, Role.mark]
  have hne : n.ptr ≠ n.addr := by
    intro he
    rw [he, ha] at hp
    cases hp
  rw [hassign]
  refine ⟨rfl, h.push hp hsize ha, trivial, fun u hu => ?_, fun b => ?_⟩
  · apply Undisturbed.trans (Undisturbed.update_held roles ha _ (some (.node none)))
    · apply Undisturbed.update_held _ (r := .block (some t) bytes n.toCallSite none)
      · rw [Function.update_of_ne hne]
        exact hp
      · simpa [Role.holder] using hu.symm
    · simpa [Role.holder] using hu.symm
  · change (n.ptr :: s.blocks).count b + _ + 0 = _ + _ + 0
    rw [List.count_cons, tracedBlock_update, tracedBlock_update]
    by_cases hb : b = n.ptr
    · rw [hb, hp]
      simp [tracedBlock]
    · by_cases hb' : b = n.addr
      · rw [hb', ha]
        simp [tracedBlock, hne, hne.symm]
      · simp [hb, hb', Ne.symm hb]

theorem move (h : Attachment s roles) {p q : Addr} (hq : s.heap.Movable p q)
    {size : BitVec 32} {site : CallSite} (hp : (Point.realloc p size site).Holds t roles) :
    Effect t s roles (.realloc p size site) (s.resize p q size.toNat)
      (Function.update (Function.update roles p none) q
        (some (.block (some t) size.toNat site none))) (.search p q size site) := by
  obtain ⟨bytes, site', m, hp⟩ := hp
  have hdrop : Attachment (s.release p) (Function.update roles p none) := h.drop hp
  have hfree : (s.release p).heap q = none := hq.free
  refine ⟨rfl, hdrop.acquire hfree size.toNat rfl rfl, Function.update_self .., fun u hu => ?_,
    fun b => ?_⟩
  · apply Undisturbed.trans
    · exact Undisturbed.update_held roles hp (by simpa [Role.holder] using hu.symm) none
    · apply Undisturbed.update
      simp [(hdrop.live q).mp hfree]
  · change s.blocks.count b + _ + 0 = s.blocks.count b + _ + if p = b then 1 else 0
    rw [tracedBlock_update, tracedBlock_update]
    by_cases hb : b = p
    · rw [hb, hp]
      simp [tracedBlock]
    · by_cases hbq : b = q
      · have hold : roles b = none := by
          have hqfree := (hdrop.live q).mp hfree
          rwa [← hbq, Function.update_of_ne hb] at hqfree
        rw [hold]
        simp [tracedBlock, hb, Ne.symm hb]
      · simp [hb, hbq, Ne.symm hb]

theorem rekey (h : Attachment s roles) {p q : Addr} {size : BitVec 32} {site : CallSite}
    {before after : List MemNode} {cur : MemNode} {s' : MemState}
    (hl : locate MemNode.ptr p s.gMemHeader = some (before, cur, after))
    (hs : s.rekeyNode p q size site = some s')
    (hq : (Point.search p q size site).Holds t roles)
    (hmine : (roles p).bind Role.tracedBy ≠ some cur.addr) :
    Effect t s roles (.search p q size site) s'
      (Function.update roles q (some (.block none size.toNat site (some cur.addr))))
      (.returned (.pointer (some q))) := by
  change roles q = _ at hq
  obtain ⟨before', cur', after', hl', hs'⟩ := rekeyNode_eq_some hs
  rw [hl] at hl'
  cases hl'
  refine ⟨by rw [hs'], h.rekey hl hs hq hmine, trivial, fun u hu => ?_, fun b => ?_⟩
  · exact Undisturbed.update_held roles hq (by simpa [Role.holder] using hu.symm) _
  · have hcount := count_replace (y := ⟨site, cur.addr, q, size⟩) hl b
    have hblocks : s'.blocks = (before ++ ⟨site, cur.addr, q, size⟩ :: after).map MemNode.ptr := by
      rw [hs']
      rfl
    rw [hblocks]
    change _ + _ + (if p = b then 1 else 0) = (s.gMemHeader.map MemNode.ptr).count b + _ + 0
    rw [tracedBlock_update]
    by_cases hb : b = q
    · rw [hb, hq]
      rw [hb] at hcount
      simp only [tracedBlock, ↓reduceIte, eq_comm (a := p)] at hcount ⊢
      omega
    · simp only [hb, ↓reduceIte, eq_comm (a := p)] at hcount ⊢
      omega

theorem unlink (h : Attachment s roles) {p : Addr} {before after : List MemNode} {temp : MemNode}
    {s' : MemState} (hl : locate MemNode.ptr p s.gMemHeader = some (before, temp, after))
    (hs : s.unlinkNode p = some s') (hp : (Point.unlink p).Holds t roles) :
    Effect t s roles (.unlink p) s' ((Point.unlink p).assign t s none roles) (.free p) := by
  obtain ⟨bytes, site, m, hp⟩ := hp
  have hassign : (Point.unlink p).assign t s none roles =
      Function.update (Function.update roles p (some (.block (some t) bytes site none)))
        temp.addr none := by
    simp [Point.assign, hl, hp, Role.mark]
  obtain ⟨before', temp', after', hl', hs'⟩ := unlinkNode_eq_some hs
  rw [hl] at hl'
  cases hl'
  have htemp : roles temp.addr = some (.node none) := h.linked temp (locate_mem hl)
  have hne : p ≠ temp.addr := by
    rintro rfl
    rw [hp] at htemp
    cases htemp
  rw [hassign]
  refine ⟨by rw [hs'], h.unlink hl hs hp, ⟨bytes, site, ?_⟩, fun u hu => ?_, fun b => ?_⟩
  · rw [Function.update_of_ne hne]
    exact Function.update_self ..
  · apply Undisturbed.trans
    · exact Undisturbed.update_held roles hp (by simpa [Role.holder] using hu.symm)
        (some (.block (some t) bytes site none))
    · apply Undisturbed.update_held _ (r := .node none)
      · rw [Function.update_of_ne hne.symm]
        exact htemp
      · simp [Role.holder]
  · have hcount := count_cut hl b
    have hblocks : s'.blocks = (before ++ after).map MemNode.ptr := by
      rw [hs']
      rfl
    rw [hblocks]
    change _ + _ + 0 = (s.gMemHeader.map MemNode.ptr).count b + _ + 0
    rw [hcount, tracedBlock_update, tracedBlock_update]
    by_cases hb : b = p
    · rw [hb, hp]
      simp [tracedBlock, hne]
    · by_cases hbt : b = temp.addr
      · rw [hbt, htemp]
        simp [tracedBlock, hne.symm]
      · simp [hb, hbt]

end Effect

/-- The step is a search of `rl_realloc` for `ptr` that hits the node written for the block
that lives at `ptr` now. -/
def Point.Steals (c : Shared ι) : Point → Prop
  | search ptr _ _ _ =>
    match locate MemNode.ptr ptr c.mem.gMemHeader with
    | some (_, cur, _) => ((c.roles ptr).bind Role.tracedBy) = some cur.addr
    | none => False
  | _ => False

instance (c : Shared ι) (pt : Point) : Decidable (pt.Steals c) := by
  unfold Point.Steals
  split
  · split <;> infer_instance
  · infer_instance

section Step

variable {t : ι} {s : MemState} {roles : Roles ι}

theorem effect_call (h : Attachment s roles) (ht : s.rlMemoryTraceState = true)
    {reply : Reply} {request : Request} (hr : ∀ p ∈ request.pointer, roles.IsClient p) :
    Effect t s roles (.returned reply) s ((request.enter s).take t roles) (request.enter s) := by
  have hclient : ∀ p, roles.IsClient p →
      ∃ bytes site m, roles p = some (.block none bytes site (some m)) := by
    intro p hp
    unfold Roles.IsClient at hp
    split at hp
    next bytes site m hrole =>
      cases m with
      | none => exact absurd rfl (h.attached p _ hrole)
      | some m => exact ⟨bytes, site, m, hrole⟩
    next => exact hp.elim
  cases request with
  | malloc size site =>
    by_cases hz : size = 0#32
    · simp only [Request.enter, hz, ↓reduceIte, Point.take]
      exact .stay h trivial (fun _ => rfl)
    · simp only [Request.enter, hz, ↓reduceIte, Point.take]
      exact .stay h (by simp [Point.Holds]) (fun _ => rfl)
  | calloc block count site =>
    by_cases hz : block = 0#32 ∨ count = 0#32
    · simp only [Request.enter, hz, ↓reduceIte, Point.take]
      exact .stay h trivial (fun _ => rfl)
    · simp only [Request.enter, hz, ↓reduceIte, Point.take]
      exact .stay h (by simp [Point.Holds, BitVec.ofNat_mul]) (fun _ => rfl)
  | realloc ptr size site =>
    by_cases hz : size = 0#32
    · simp only [Request.enter, hz, ↓reduceIte, Point.take]
      exact .stay h trivial (fun _ => rfl)
    · cases ptr with
      | none =>
        simp only [Request.enter, hz, ↓reduceIte, Point.take]
        exact .stay h (by simp [Point.Holds]) (fun _ => rfl)
      | some p =>
        obtain ⟨bytes, site', m, hp⟩ := hclient p (hr p rfl)
        simp only [Request.enter, hz, ↓reduceIte, Point.take, hp, Option.map_some, Role.pass]
        exact .pass h hp (Or.inl rfl) ⟨bytes, site', m, Function.update_self ..⟩ (fun _ => rfl)
  | free ptr =>
    cases ptr with
    | none => exact .stay h trivial (fun _ => rfl)
    | some p =>
      obtain ⟨bytes, site, m, hp⟩ := hclient p (hr p rfl)
      simp only [Request.enter, ht, ↓reduceIte, Point.take, hp, Option.map_some, Role.pass]
      exact .pass h hp (Or.inl rfl) ⟨bytes, site, m, Function.update_self ..⟩ (fun _ => rfl)

theorem effect_search (h : Attachment s roles) {p q : Addr} {size : BitVec 32} {site : CallSite}
    (hq : (Point.search p q size site).Holds t roles) (hm : p ∈ s.blocks)
    (hsteals : ¬ (Point.search p q size site).Steals ⟨s, roles⟩) (ans : Option Addr) :
    Effect t s roles (.search p q size site) ((Point.search p q size site).step s ans).1
      ((Point.search p q size site).assign t s ans roles)
      ((Point.search p q size site).step s ans).2 := by
  obtain ⟨before, cur, after, hl⟩ := locate_isSome hm
  obtain ⟨s', hs'⟩ := exists_rekeyNode q size site hm
  have hmine : (roles p).bind Role.tracedBy ≠ some cur.addr := by
    intro hmine
    apply hsteals
    simp only [Point.Steals, hl]
    exact hmine
  have hrole : roles q = some (.block (some t) size.toNat site none) := hq
  simp only [Point.step, hs', Point.assign, hl, hrole, Option.map_some, Role.mark]
  exact .rekey h hl hs' hq hmine

theorem effect_mallocNode (h : Attachment s roles) {p a : Addr} {size : BitVec 32}
    {site : CallSite} (hp : (Point.mallocNode p size site).Holds t roles) (ha : s.heap a = none) :
    Effect t s roles (.mallocNode p size site)
      ((Point.mallocNode p size site).step s (some a)).1
      ((Point.mallocNode p size site).assign t s (some a) roles)
      ((Point.mallocNode p size site).step s (some a)).2 := by
  obtain ⟨bytes, hsize, hrole⟩ := hp
  have hfree := (h.live a).mp ha
  have hne : p ≠ a := by
    rintro rfl
    rw [hrole] at hfree
    cases hfree
  refine .acquire h ha sizeofMemNode rfl rfl ?_ (fun _ => rfl)
  refine ⟨Function.update_self .., bytes, hsize, ?_⟩
  rw [Function.update_of_ne hne]
  exact hrole

theorem effect_unlink (h : Attachment s roles) {p : Addr}
    (hp : (Point.unlink p).Holds t roles) (ans : Option Addr) :
    Effect t s roles (.unlink p) ((Point.unlink p).step s ans).1
      ((Point.unlink p).assign t s ans roles) ((Point.unlink p).step s ans).2 := by
  obtain ⟨bytes, site, m, hrole⟩ := hp
  have hmem : p ∈ s.blocks := List.mem_map_of_mem (f := MemNode.ptr) (h.attached p _ hrole)
  obtain ⟨before, temp, after, hl⟩ := locate_isSome hmem
  obtain ⟨s', hs'⟩ := exists_unlinkNode hmem
  have heffect := Effect.unlink h hl hs' ⟨bytes, site, m, hrole⟩
  simp only [Point.step, hs']
  simp only [Point.assign, hl] at heffect ⊢
  exact heffect

theorem effect_step (h : Attachment s roles) (ht : s.rlMemoryTraceState = true) {pt : Point}
    (hp : pt.Holds t roles) {ans : Option Addr} (hr : (Action.step ans).Ready ⟨s, roles⟩ pt)
    (hsteals : ¬ pt.Steals ⟨s, roles⟩)
    (hm : ∀ p, pt.searching p = 1 → p ∈ s.blocks) :
    Effect t s roles pt (pt.step s ans).1 (pt.assign t s ans roles) (pt.step s ans).2 := by
  cases pt with
  | returned reply => exact hr.elim
  | malloc bytes size site =>
    cases ans with
    | none => exact .stay h trivial (fun _ => rfl)
    | some p =>
      simp only [Point.step, Point.assign, ht, ↓reduceIte]
      exact .acquire h (hr p rfl) bytes rfl rfl ⟨bytes, hp, Function.update_self ..⟩ (fun _ => rfl)
  | mallocNode ptr size site =>
    cases ans with
    | none =>
      obtain ⟨bytes, hsize, hrole⟩ := hp
      exact .stay h ⟨bytes, site, hrole⟩ (fun _ => rfl)
    | some a => exact effect_mallocNode h hp (hr a rfl)
  | discard ptr =>
    obtain ⟨bytes, site, hrole⟩ := hp
    exact .drop h hrole trivial (fun _ => rfl)
  | push node => exact .push h hp
  | realloc ptr size site =>
    cases ans with
    | none =>
      obtain ⟨bytes, site', m, hrole⟩ := hp
      simp only [Point.step, Point.assign, hrole, Option.map_some, Role.pass]
      exact .pass h hrole (Or.inr rfl) trivial (fun _ => rfl)
    | some q =>
      simp only [Point.step, Point.assign, ht, ↓reduceIte]
      exact .move h (hr q rfl) hp
  | search ptr newPtr size site =>
    -- the count of nodes keyed `ptr` covers this search, so there is one to find
    exact effect_search h hp (hm ptr (if_pos rfl)) hsteals ans
  | unlink ptr => exact effect_unlink h hp ans
  | free ptr =>
    obtain ⟨bytes, site, hrole⟩ := hp
    exact .drop h hrole trivial (fun _ => rfl)

end Step

section Runs

variable [Fintype ι] [DecidableEq ι]

def searchers (points : ι → Point) (a : Addr) : ℕ :=
  threadCount points (fun pt => pt.searching a = 1)

structure PoolInvariant (c : Shared ι × (ι → Point)) : Prop where
  tracing : c.1.mem.rlMemoryTraceState = true
  attachment : Attachment c.1.mem c.1.roles
  counted : ∀ a, c.1.mem.blocks.count a = tracedBlock (c.1.roles a) + searchers c.2 a

theorem searching_eq (pt : Point) (a : Addr) :
    pt.searching a = if pt.searching a = 1 then 1 else 0 := by
  cases pt <;> simp [Point.searching]

theorem PoolInvariant.step {c : Shared ι × (ι → Point)} (h : PoolInvariant c) (t : ι)
    {s' : MemState} {roles' : Roles ι} {pt' : Point}
    (he : Effect t c.1.mem c.1.roles (c.2 t) s' roles' pt') :
    PoolInvariant (⟨s', roles'⟩, Function.update c.2 t pt') where
  tracing := he.tracing.trans h.tracing
  attachment := he.attachment
  counted a := by
    have hcount := h.counted a
    have hbalance := he.balance a
    have hmove := threadCount_move c.2 t pt' (fun pt => pt.searching a = 1)
    rw [← searching_eq, ← searching_eq] at hmove
    simp only [searchers] at hcount ⊢
    omega

theorem PoolInvariant.effect {c : Shared ι × (ι → Point)} (h : PoolInvariant c) {i : ι × Action}
    (hp : (c.2 i.1).Holds i.1 c.1.roles) (hr : i.2.Ready c.1 (c.2 i.1))
    (hsteals : ¬ (c.2 i.1).Steals c.1) :
    Effect i.1 c.1.mem c.1.roles (c.2 i.1) ((threads ι).step i.1 c.1 (c.2 i.1) i.2).1.mem
      ((threads ι).step i.1 c.1 (c.2 i.1) i.2).1.roles
      ((threads ι).step i.1 c.1 (c.2 i.1) i.2).2 := by
  obtain ⟨t, action⟩ := i
  cases action with
  | call request =>
    cases hpt : c.2 t with
    | returned reply =>
      simp only [hpt] at hr
      exact effect_call h.attachment h.tracing hr
    | _ => simp [hpt, Action.Ready] at hr
  | step ans =>
    apply effect_step h.attachment h.tracing hp hr hsteals
    intro p hs
    have hpos : 0 < searchers c.2 p := threadCount_pos (t := t) hs
    have hcount := h.counted p
    exact List.count_pos_iff.mp (by omega)

theorem threads_modular : (threads ι).Modular (fun c i => ¬ (c.2 i.1).Steals c.1)
    PoolInvariant (fun t c pt => pt.Holds t c.roles) where
  shared _ i hI hA hr hg := hI.step i.1 (hI.effect hA hr hg)
  own _ _ hI hA hr hg := (hI.effect hA hr hg).holds
  frame _ _ u hI hA hr hg hu hAu := ((hI.effect hA hr hg).undisturbed u hu).holds hAu

omit [DecidableEq ι] in
theorem poolInvariant_start (heap : Heap) :
    PoolInvariant (threadsStart heap : Shared ι × (ι → Point)) where
  tracing := rfl
  attachment := by
    refine ⟨fun a => ?_, List.nodup_nil, fun n hn => (List.not_mem_nil hn).elim, fun a r ha => ?_⟩
    · change heap a = none ↔ (heap a).map _ = none
      simp
    · change (heap a).map _ = some r at ha
      rw [Option.map_eq_some_iff] at ha
      obtain ⟨n, _, rfl⟩ := ha
      trivial
  counted a := by
    have hroles : tracedBlock ((threadsStart heap : Shared ι × (ι → Point)).1.roles a) = 0 := by
      change tracedBlock ((heap a).map _) = 0
      cases heap a <;> rfl
    have hsearchers : searchers (threadsStart heap : Shared ι × (ι → Point)).2 a = 0 :=
      threadCount_eq_zero (fun t => by simp [threadsStart, Point.searching])
    rw [hroles, hsearchers]
    rfl

def Point.Idle : Point → Prop
  | returned _ => True
  | _ => False

instance (pt : Point) : Decidable pt.Idle := by
  unfold Point.Idle
  split <;> infer_instance

theorem interleaved_tracking (heap : Heap) (is : List (ι × Action))
    (hv : ((threads ι).pool.restrict (fun c i => ¬ (c.2 i.1).Steals c.1)).Valid
      (threadsStart heap) is)
    (hidle : ∀ t, (((threads ι).pool.exec (threadsStart heap) is).2 t).Idle) :
    let c := ((threads ι).pool.exec (threadsStart heap) is).1
    ∀ p bytes site m, c.roles p = some (.block none bytes site m) →
      ∃ node, c.mem.gMemHeader.filter (fun n => n.ptr = p) = [node] ∧
        node.size = BitVec.ofNat 32 bytes ∧ node.toCallSite = site := by
  intro c p bytes site m hp
  have hmodular : (threads ι).Modular (fun c i => ¬ (c.2 i.1).Steals c.1) PoolInvariant
      (fun t c pt => pt.Holds t c.roles) := threads_modular
  obtain ⟨hinv, _⟩ := hmodular.run (poolInvariant_start heap) (fun t => trivial) hv
  have hnone : searchers ((threads ι).pool.exec (threadsStart heap) is).2 p = 0 := by
    apply threadCount_eq_zero
    intro t
    have ht := hidle t
    cases hpt : ((threads ι).pool.exec (threadsStart heap) is).2 t with
    | returned reply => simp [Point.searching]
    | _ => simp [hpt, Point.Idle] at ht
  have hattached := hinv.attachment.attached p _ hp
  cases m with
  | none => exact absurd rfl hattached
  | some m =>
    have hmem : (⟨site, m, p, BitVec.ofNat 32 bytes⟩ : MemNode) ∈ c.mem.gMemHeader := hattached
    have hcount : c.mem.blocks.count p = 1 := by
      rw [hinv.counted p, hnone, hp]
      rfl
    have hlength : (c.mem.gMemHeader.filter (fun n => n.ptr = p)).length = 1 := by
      rw [← hcount, blocks, List.count_eq_countP, List.countP_map, List.countP_eq_length_filter]
      rfl
    obtain ⟨node, hnode⟩ := List.length_eq_one_iff.mp hlength
    have hin : (⟨site, m, p, BitVec.ofNat 32 bytes⟩ : MemNode) ∈
        c.mem.gMemHeader.filter (fun n => n.ptr = p) := by
      simp [hmem]
    rw [hnode, List.mem_singleton] at hin
    exact ⟨node, hnode, by rw [← hin], by rw [← hin]⟩

end Runs

instance (c : Shared ι) (pt : Point) (action : Action) : Decidable (action.Ready c pt) := by
  unfold Action.Ready
  split <;> infer_instance

instance [DecidableEq ι] (c : Shared ι × (ι → Point)) (i : ι × Action) :
    Decidable ((threads ι).pool.enabled c i) :=
  inferInstanceAs (Decidable (i.2.Ready c.1 (c.2 i.1)))

instance [DecidableEq ι] (c : Shared ι × (ι → Point)) (i : ι × Action) :
    Decidable (((threads ι).pool.restrict (fun c i => ¬ (c.2 i.1).Steals c.1)).enabled c i) :=
  inferInstanceAs (Decidable (_ ∧ ¬ _))

section Examples

def movingSite : CallSite := ⟨"main.c", "grow", 10⟩
def otherSite : CallSite := ⟨"main.c", "work", 20⟩

def movedRun : List (Fin 2 × Action) :=
  [(0, .call (.malloc 8 movingSite)), (0, .step (some 100)), (0, .step (some 200)),
    (0, .step none), (0, .call (.realloc (some 100) 16 movingSite)), (0, .step (some 300))]

def searchFirst : List (Fin 2 × Action) :=
  movedRun ++ [(1, .call (.malloc 24 otherSite)), (1, .step (some 100)), (0, .step none),
    (1, .step (some 400)), (1, .step none)]

def recordFirst : List (Fin 2 × Action) :=
  movedRun ++ [(1, .call (.malloc 24 otherSite)), (1, .step (some 100)), (1, .step (some 400)),
    (1, .step none), (0, .step none)]

theorem interleaved_tracking_run :
    let c := ((threads (Fin 2)).pool.exec (threadsStart (fun _ => none)) searchFirst).1
    ∀ p bytes site m, c.roles p = some (.block none bytes site m) →
      ∃ node, c.mem.gMemHeader.filter (fun n => n.ptr = p) = [node] ∧
        node.size = BitVec.ofNat 32 bytes ∧ node.toCallSite = site :=
  interleaved_tracking (fun _ => none) searchFirst (by decide) (by decide)

theorem realloc_steals_node :
    ¬ ∀ is : List (Fin 2 × Action),
      (threads (Fin 2)).pool.Valid (threadsStart (fun _ => none)) is →
      (∀ t, (((threads (Fin 2)).pool.exec (threadsStart (fun _ => none)) is).2 t).Idle) →
      let c := ((threads (Fin 2)).pool.exec (threadsStart (fun _ => none)) is).1
      ∀ p bytes site m, c.roles p = some (.block none bytes site m) →
        ∃ node, c.mem.gMemHeader.filter (fun n => n.ptr = p) = [node] ∧
          node.size = BitVec.ofNat 32 bytes ∧ node.toCallSite = site := by
  intro h
  have hall := h recordFirst (by decide) (by decide)
  obtain ⟨node, hnode, hsize, hsite⟩ := hall 100 24 otherSite (some 400) (by decide)
  have hfilter : ((threads (Fin 2)).pool.exec (threadsStart (fun _ => none)) recordFirst).1.mem.gMemHeader.filter
      (fun n => n.ptr = 100) = [⟨movingSite, 200, 100, 8⟩] := by decide
  rw [hfilter] at hnode
  cases hnode
  exact absurd hsize (by decide)

end Examples

end RlLibrary.Memory
