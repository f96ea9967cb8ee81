import RlLibrary.Memory.Threads

namespace RlLibrary.Memory

open Foundation MemState

variable {ι : Type*}

def Role.Attached (nodes : List MemNode) (a : Addr) : Role ι → Prop
  | block h _ _ none => h ≠ none
  | block _ bytes site (some m) => (⟨site, m, a, BitVec.ofNat 32 bytes⟩ : MemNode) ∈ nodes
  | _ => True

structure Attachment (s : MemState) (roles : Roles ι) : Prop where
  live : ∀ a, s.heap a = none ↔ roles a = none
  distinct : s.nodeBlocks.Nodup
  linked : ∀ n ∈ s.gMemHeader, roles n.addr = some (.node none)
  attached : ∀ a r, roles a = some r → r.Attached s.gMemHeader a

section Updates

variable {roles : Roles ι}

theorem live_update {heap : Heap} (h : ∀ a, heap a = none ↔ roles a = none) (x : Addr)
    {u : Option ℕ} {v : Option (Role ι)} (hx : u = none ↔ v = none) :
    ∀ a, Function.update heap x u a = none ↔ Function.update roles x v a = none := by
  intro a
  by_cases ha : a = x
  · subst ha
    rw [Function.update_self, Function.update_self]
    exact hx
  · rw [Function.update_of_ne ha, Function.update_of_ne ha]
    exact h a

theorem live_relabel {heap : Heap} (h : ∀ a, heap a = none ↔ roles a = none) {x : Addr}
    {r r' : Role ι} (hx : roles x = some r) :
    ∀ a, heap a = none ↔ Function.update roles x (some r') a = none := by
  have hheap : heap x ≠ none := by
    rw [ne_eq, h x, hx]
    simp
  have hupdate := live_update h x (u := heap x) (v := some r') (by simp [hheap])
  rwa [Function.update_eq_self] at hupdate

theorem linked_update {nodes : List MemNode}
    (h : ∀ n ∈ nodes, roles n.addr = some (.node none)) {x : Addr}
    (hx : roles x ≠ some (.node none)) (v : Option (Role ι)) :
    ∀ n ∈ nodes, Function.update roles x v n.addr = some (.node none) := by
  intro n hn
  have hne : n.addr ≠ x := by
    intro he
    exact hx (he ▸ h n hn)
  rw [Function.update_of_ne hne]
  exact h n hn

theorem attached_update {nodes : List MemNode}
    (h : ∀ a r, roles a = some r → r.Attached nodes a) {x : Addr} {v : Option (Role ι)}
    (hv : ∀ r ∈ v, r.Attached nodes x) :
    ∀ a r, Function.update roles x v a = some r → r.Attached nodes a := by
  intro a r ha
  by_cases hax : a = x
  · subst hax
    rw [Function.update_self] at ha
    exact hv r ha
  · rw [Function.update_of_ne hax] at ha
    exact h a r ha

theorem Role.Attached.mono {nodes nodes' : List MemNode} {a : Addr} {r : Role ι}
    (h : r.Attached nodes a)
    (hsub : ∀ n ∈ nodes, n.ptr = a → r.tracedBy = some n.addr → n ∈ nodes') :
    r.Attached nodes' a := by
  cases r with
  | system => trivial
  | node holder => trivial
  | block holder bytes site m =>
    cases m with
    | none => exact h
    | some m => exact hsub _ h rfl rfl

theorem Role.Attached.of_holder {nodes : List MemNode} {a : Addr} {r : Role ι} {t : ι}
    (hr : r.holder = some t) (hm : r.tracedBy = none) : r.Attached nodes a := by
  cases r with
  | system => trivial
  | node holder => trivial
  | block holder bytes site m =>
    cases hr
    cases hm
    exact Option.some_ne_none t

end Updates

namespace Attachment

variable {s : MemState} {roles : Roles ι}

theorem acquire (h : Attachment s roles) {a : Addr} (ha : s.heap a = none) (n : ℕ) {r : Role ι}
    {t : ι} (hr : r.holder = some t) (hm : r.tracedBy = none) :
    Attachment (s.allocate a n) (Function.update roles a (some r)) where
  live := live_update h.live a (by simp)
  distinct := h.distinct
  linked := by
    apply linked_update h.linked
    rw [(h.live a).mp ha]
    simp
  attached := by
    apply attached_update h.attached
    rintro _ ⟨rfl⟩
    exact .of_holder hr hm

theorem drop (h : Attachment s roles) {p : Addr} {o : Option ι} {bytes : ℕ} {site : CallSite}
    {m : Option Addr} (hp : roles p = some (.block o bytes site m)) :
    Attachment (s.release p) (Function.update roles p none) where
  live := live_update h.live p (by simp)
  distinct := h.distinct
  linked := by
    apply linked_update h.linked
    simp [hp]
  attached := by
    apply attached_update h.attached
    simp

theorem relabel (h : Attachment s roles) {p : Addr} {o o' : Option ι} {bytes : ℕ}
    {site : CallSite} {m : Option Addr} (hp : roles p = some (.block o bytes site m))
    (hm : m = none → o' ≠ none) :
    Attachment s (Function.update roles p (some (.block o' bytes site m))) where
  live := live_relabel h.live hp
  distinct := h.distinct
  linked := by
    apply linked_update h.linked
    simp [hp]
  attached := by
    apply attached_update h.attached
    rintro _ ⟨rfl⟩
    cases m with
    | none => exact hm rfl
    | some m =>
      have hold : Role.Attached s.gMemHeader p (.block o bytes site (some m)) := h.attached p _ hp
      exact hold

theorem push (h : Attachment s roles) {n : MemNode} {t : ι} {bytes : ℕ}
    (hp : roles n.ptr = some (.block (some t) bytes n.toCallSite none))
    (hsize : n.size = BitVec.ofNat 32 bytes) (ha : roles n.addr = some (.node (some t))) :
    Attachment (s.pushNode n) (Function.update (Function.update roles n.addr (some (.node none)))
      n.ptr (some (.block none bytes n.toCallSite (some n.addr)))) := by
  have hne : n.ptr ≠ n.addr := by
    intro he
    rw [he, ha] at hp
    cases hp
  have hp' : Function.update roles n.addr (some (.node none)) n.ptr =
      some (.block (some t) bytes n.toCallSite none) := by
    rw [Function.update_of_ne hne]
    exact hp
  refine ⟨live_relabel (live_relabel h.live ha) hp', ?_, ?_, ?_⟩
  · have hnew : n.addr ∉ s.nodeBlocks := by
      intro hm
      obtain ⟨k, hk, he⟩ := List.mem_map.mp hm
      have hlinked := h.linked k hk
      rw [he, ha] at hlinked
      cases hlinked
    exact List.nodup_cons.mpr ⟨hnew, h.distinct⟩
  · apply linked_update _ (by simp [hp'])
    intro k hk
    rcases List.mem_cons.mp hk with rfl | hk
    · exact Function.update_self ..
    · exact linked_update h.linked (by simp [ha]) _ k hk
  · apply attached_update
    · apply attached_update
      · intro a r har
        exact (h.attached a r har).mono (fun k hk _ _ => List.mem_cons_of_mem _ hk)
      · rintro _ ⟨rfl⟩
        trivial
    · rintro _ ⟨rfl⟩
      change (⟨n.toCallSite, n.addr, n.ptr, _⟩ : MemNode) ∈ n :: s.gMemHeader
      rw [← hsize]
      exact List.mem_cons_self ..

theorem rekey (h : Attachment s roles) {p q : Addr} {t : ι} {size : BitVec 32} {site : CallSite}
    {before after : List MemNode} {cur : MemNode} {s' : MemState}
    (hl : locate MemNode.ptr p s.gMemHeader = some (before, cur, after))
    (hs : s.rekeyNode p q size site = some s')
    (hq : roles q = some (.block (some t) size.toNat site none))
    (hmine : (roles p).bind Role.tracedBy ≠ some cur.addr) :
    Attachment s' (Function.update roles q (some (.block none size.toNat site (some cur.addr)))) := by
  obtain ⟨before', cur', after', hl', hs'⟩ := rekeyNode_eq_some hs
  rw [hl] at hl'
  cases hl'
  obtain ⟨hsplit, hkey, _⟩ := locate_eq_some hl
  have haddrs : (before ++ ⟨site, cur.addr, q, size⟩ :: after).map MemNode.addr = s.nodeBlocks := by
    rw [nodeBlocks, hsplit]
    simp
  rw [hs']
  refine ⟨live_relabel h.live hq, ?_, ?_, ?_⟩
  · change (List.map MemNode.addr _).Nodup
    rw [haddrs]
    exact h.distinct
  · apply linked_update _ (by simp [hq])
    intro n hn
    have hm : n.addr ∈ s.nodeBlocks := haddrs ▸ List.mem_map_of_mem hn
    obtain ⟨k, hk, he⟩ := List.mem_map.mp hm
    exact he ▸ h.linked k hk
  · intro a r har
    by_cases haq : a = q
    · subst haq
      rw [Function.update_self] at har
      cases har
      change (⟨site, cur.addr, a, BitVec.ofNat 32 size.toNat⟩ : MemNode) ∈ before ++ _ :: after
      simp
    · rw [Function.update_of_ne haq] at har
      apply (h.attached a r har).mono
      -- the node of another block is not the one that is re-keyed
      intro n hn hna htraced
      have hne : n ≠ cur := by
        rintro rfl
        rw [← hkey, hna, har] at hmine
        exact hmine htraced
      rcases List.mem_append.mp (mem_cut hl hn hne) with hb | hb
      · exact List.mem_append_left _ hb
      · exact List.mem_append_right _ (List.mem_cons_of_mem _ hb)

theorem unlink (h : Attachment s roles) {p : Addr} {t : ι} {bytes : ℕ} {site : CallSite}
    {m : Addr} {before after : List MemNode} {temp : MemNode} {s' : MemState}
    (hl : locate MemNode.ptr p s.gMemHeader = some (before, temp, after))
    (hs : s.unlinkNode p = some s')
    (hp : roles p = some (.block (some t) bytes site (some m))) :
    Attachment s' (Function.update (Function.update roles p (some (.block (some t) bytes site none)))
      temp.addr none) := by
  obtain ⟨before', temp', after', hl', hs'⟩ := unlinkNode_eq_some hs
  rw [hl] at hl'
  cases hl'
  obtain ⟨hsplit, hkey, _⟩ := locate_eq_some hl
  have hsub : (before ++ after).Sublist s.gMemHeader := by
    rw [hsplit]
    exact List.Sublist.append_left (List.sublist_cons_self ..) _
  have hdistinct := h.distinct
  rw [nodeBlocks, hsplit, List.map_append, List.map_cons, List.nodup_middle,
    List.nodup_cons, ← List.map_append] at hdistinct
  rw [hs']
  refine ⟨live_update (live_relabel h.live hp) _ (by simp), hdistinct.2, ?_, ?_⟩
  · intro n hn
    have hne : n.addr ≠ temp.addr := by
      intro he
      exact hdistinct.1 (he ▸ List.mem_map_of_mem hn)
    rw [Function.update_of_ne hne]
    exact linked_update h.linked (by simp [hp]) _ n (hsub.subset hn)
  · apply attached_update _ (by simp)
    intro a r har
    by_cases hap : a = p
    · subst hap
      rw [Function.update_self] at har
      cases har
      exact Option.some_ne_none t
    · rw [Function.update_of_ne hap] at har
      apply (h.attached a r har).mono
      intro n hn hna _
      apply mem_cut hl hn
      intro he
      exact hap (by rw [← hna, he, hkey])

end Attachment

end RlLibrary.Memory
