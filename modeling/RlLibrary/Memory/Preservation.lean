import RlLibrary.Memory.Tracking

namespace RlLibrary.Memory

open Foundation MemState

namespace Tracked

variable {s : MemState} {L : Ledger}

theorem start (heap : Heap) : Tracked (World.start heap) where
  tracing := rfl
  list := ⟨List.nodup_nil, nofun, nofun⟩
  heap := ⟨List.nodup_nil, nofun, nofun⟩
  off _ := rfl

theorem nodes_nil (h : Tracked ⟨s, L⟩) (hs : s.rlMemoryTraceState = false) :
    s.gMemHeader = [] := h.off (h.tracing.symm.trans hs)

theorem passLock (h : Tracked ⟨s, L⟩) : Tracked ⟨s.passLock, L⟩ :=
  ⟨h.tracing, h.list, h.heap, h.off⟩

theorem record (h : Tracked ⟨s, L⟩) (ht : L.tracing = true) {p a : Addr} {bytes : ℕ}
    {size : BitVec 32} (site : CallSite) (hsize : size = BitVec.ofNat 32 bytes)
    (hp : s.heap p = none) (ha : s.heap.allocate p bytes a = none) :
    Tracked ⟨((s.allocate p bytes).allocate a sizeofMemNode).pushNode ⟨site, a, p, size⟩,
      L.give p bytes site⟩ where
  tracing := h.tracing
  list := by
    subst hsize
    exact h.list.give ht (h.list.not_mem (h.heap.not_holds hp)) bytes site a
  heap := (h.heap.give hp bytes site).push ha sizeofMemNode
  off hf := by
    have hf' : L.tracing = false := hf
    rw [ht] at hf'
    cases hf'

theorem give_off (h : Tracked ⟨s, L⟩) (hs : s.rlMemoryTraceState = false) {p : Addr}
    (bytes : ℕ) (site : CallSite) (hp : s.heap p = none) :
    Tracked ⟨s.allocate p bytes, L.give p bytes site⟩ := by
  have hnil := h.nodes_nil hs
  have hm : Matches [] L := hnil ▸ h.list
  have hg := hm.give_off (h.tracing.symm.trans hs) p bytes site
  exact ⟨h.tracing, by rw [← hnil] at hg; exact hg, h.heap.give hp bytes site, fun _ => hnil⟩

theorem take (h : Tracked ⟨s, L⟩) {p : Addr} (hb : p ∉ s.blocks) (hn : p ∉ s.nodeBlocks) :
    Tracked ⟨s.release p, L.take p⟩ :=
  ⟨h.tracing, h.list.take hb, h.heap.take hn, h.off⟩

theorem obtainBlock (h : Tracked ⟨s, L⟩) {bytes : ℕ} {size : BitVec 32} {block node : Option Addr}
    (site : CallSite) (hsize : size = BitVec.ofNat 32 bytes)
    (hf : World.Fresh s.heap bytes block node) :
    Tracked ⟨(obtainBlock bytes size site block node s).2,
      L.receive (Memory.obtainBlock bytes size site block node s).1 bytes site⟩ := by
  cases block with
  | none => exact h
  | some p =>
    obtain ⟨hp, ha⟩ := hf p rfl
    cases hs : s.rlMemoryTraceState with
    | false =>
      rw [obtainBlock_off _ _ _ hs]
      exact h.give_off hs bytes site hp
    | true =>
      rw [obtainBlock_on _ _ _ hs]
      cases node with
      | none =>
        have he : (s.allocate p bytes).release p = s := by
          simp only [MemState.allocate, MemState.release, Heap.release_allocate _ _ hp]
        rw [recordBlock_none, he]
        exact h
      | some a => exact h.record (h.tracing.symm.trans hs) site hsize hp (ha a rfl)

theorem rlMalloc (h : Tracked ⟨s, L⟩) {size : BitVec 32} (site : CallSite)
    {block node : Option Addr} (hf : World.Fresh s.heap size.toNat block node) :
    Tracked ⟨(rlMalloc size site block node s).2,
      L.receive (Memory.rlMalloc size site block node s).1 size.toNat site⟩ := by
  by_cases hz : size = 0#32
  · simpa [Memory.rlMalloc, hz, Ledger.receive] using h
  · rw [rlMalloc_pos _ _ hz]
    exact h.obtainBlock site (by simp) hf

theorem rlCalloc (h : Tracked ⟨s, L⟩) {block count : BitVec 32} (site : CallSite)
    {zeroed node : Option Addr}
    (hf : World.Fresh s.heap (block.toNat * count.toNat) zeroed node) :
    Tracked ⟨(rlCalloc block count site zeroed node s).2,
      L.receive (Memory.rlCalloc block count site zeroed node s).1
        (block.toNat * count.toNat) site⟩ := by
  by_cases hz : block = 0#32 ∨ count = 0#32
  · simpa [Memory.rlCalloc, hz, Ledger.receive] using h
  · simp only [Memory.rlCalloc, hz, ↓reduceIte]
    exact h.obtainBlock site (by rw [BitVec.ofNat_mul]; simp) hf

theorem rekey (h : Tracked ⟨s, L⟩) (ht : L.tracing = true) {p q : Addr} {size : BitVec 32}
    {site : CallSite} {t : MemState} (hm : s.heap.Movable p q) (hn : p ∉ s.nodeBlocks)
    (hr : (s.resize p q size.toNat).rekeyNode p q size site = some t) :
    Tracked ⟨t, (L.take p).give q size.toNat site⟩ := by
  obtain ⟨before, cur, after, hl, rfl⟩ := rekeyNode_eq_some hr
  have hlist : Matches (before ++ after) (L.take p) := h.list.unlink hl
  have hfree : ¬ (L.take p).Holds q := (h.heap.take hn).not_holds hm.free
  have hgive := hlist.give ht (hlist.not_mem hfree) size.toNat site cur.addr
  have haddr : (before ++ ⟨site, cur.addr, q, size⟩ :: after).map MemNode.addr = s.nodeBlocks := by
    have hnodes : s.gMemHeader = before ++ cur :: after := (locate_eq_some hl).1
    rw [MemState.nodeBlocks, hnodes]
    simp
  refine ⟨h.tracing, ?_, ?_, ?_⟩
  · have hp := hgive.perm List.perm_middle.symm
    simpa using hp
  · have hmove := h.heap.move hn hm size.toNat site
    change Owns _ ((before ++ ⟨site, cur.addr, q, size⟩ :: after).map MemNode.addr) _
    rw [haddr]
    exact hmove
  · intro hf
    have hf' : L.tracing = false := hf
    rw [ht] at hf'
    cases hf'

theorem rlRealloc_missing (h : Tracked ⟨s, L⟩) (hs : s.rlMemoryTraceState = true) {p q : Addr}
    {size : BitVec 32} (site : CallSite) {node : Option Addr} (hz : size ≠ 0#32)
    (hb : p ∉ s.blocks) (hn : p ∉ s.nodeBlocks) (hm : s.heap.Movable p q)
    (ha : ∀ a ∈ node, s.heap.resize p q size.toNat a = none) :
    Tracked ⟨(rlRealloc (some p) size site (some q) node s).2,
      L.observe (.realloc (some p) size site (some q) node)
        (.pointer (Memory.rlRealloc (some p) size site (some q) node s).1)⟩ := by
  rw [Memory.rlRealloc_missing _ _ hs hz hb]
  cases node with
  | none =>
    have hlose : Tracked ⟨s.release p, L.lose p⟩ :=
      ⟨h.tracing, h.list.lose hb, h.heap.lose hn, h.off⟩
    have he : ((s.resize p q size.toNat).passLock).release q = (s.release p).passLock := by
      simp only [MemState.resize, MemState.passLock, MemState.release,
        Heap.release_resize _ _ hm]
    rw [recordBlock_none, he]
    simpa only [Ledger.observe, hz, ↓reduceIte] using hlose.passLock
  | some a =>
    have htake := (h.take hb hn).passLock
    have hsize : size = BitVec.ofNat 32 size.toNat := by simp
    have hr := htake.record (h.tracing.symm.trans hs) site hsize hm.free (ha a rfl)
    exact hr

theorem rlRealloc (h : Tracked ⟨s, L⟩) {p : Addr} {size : BitVec 32} (site : CallSite)
    {block node : Option Addr} (hn : p ∉ s.nodeBlocks)
    (hq : ∀ q ∈ block, s.heap.Movable p q ∧
      ∀ a ∈ node, s.heap.resize p q size.toNat a = none) :
    Tracked ⟨(rlRealloc (some p) size site block node s).2,
      L.observe (.realloc (some p) size site block node)
        (.pointer (Memory.rlRealloc (some p) size site block node s).1)⟩ := by
  cases block with
  | none => rwa [rlRealloc_failed]
  | some q =>
    obtain ⟨hm, ha⟩ := hq q rfl
    by_cases hz : size = 0#32
    · simpa [Memory.rlRealloc, hz, Ledger.observe] using h
    cases hs : s.rlMemoryTraceState with
    | false =>
      have hnil := h.nodes_nil hs
      have htake := h.take (p := p) (by simp [MemState.blocks, hnil]) hn
      rw [rlRealloc_off _ _ hs hz]
      exact htake.give_off hs size.toNat site hm.free
    | true =>
      by_cases hb : p ∈ s.blocks
      · obtain ⟨t, ht⟩ := exists_rekeyNode (s := s.resize p q size.toNat) q size site hb
        rw [rlRealloc_found _ _ hs hz ht]
        exact h.rekey (h.tracing.symm.trans hs) hm hn ht
      · exact h.rlRealloc_missing hs site hz hb hn hm ha

theorem unlink (h : Tracked ⟨s, L⟩) {p : Addr} {t : MemState} (hu : s.unlinkNode p = some t) :
    Tracked ⟨t.release p, L.take p⟩ := by
  have hb : p ∈ s.blocks := by
    by_contra hb
    rw [unlinkNode_eq_none.mpr hb] at hu
    cases hu
  obtain ⟨before, temp, after, hl, rfl⟩ := unlinkNode_eq_some hu
  obtain ⟨e, he, ht⟩ := (h.list.mem_iff p).mp hb
  have haddr : s.nodeBlocks = before.map MemNode.addr ++ temp.addr :: after.map MemNode.addr := by
    rw [MemState.nodeBlocks, (locate_eq_some hl).1]
    simp
  have howns : Owns (s.heap.release temp.addr) ((before ++ after).map MemNode.addr) L := by
    rw [List.map_append]
    apply Owns.cut
    rw [← haddr]
    exact h.heap
  have hn := (howns.held p e he (h.list.complete p e he ht).1).2
  refine ⟨h.tracing, h.list.unlink hl, howns.take hn, ?_⟩
  intro hf
  have hnil := h.off hf
  rw [MemState.blocks, show s.gMemHeader = [] from hnil] at hb
  cases hb

theorem rlFree (h : Tracked ⟨s, L⟩) {p : Addr}
    (hc : s.rlMemoryTraceState = false → p ∉ s.nodeBlocks) :
    Tracked ⟨(rlFree (some p) s).2,
      L.observe (.free (some p)) (.code (Memory.rlFree (some p) s).1)⟩ := by
  cases hs : s.rlMemoryTraceState with
  | false =>
    rw [rlFree_off hs]
    exact h.take (by simp [MemState.blocks, h.nodes_nil hs]) (hc hs)
  | true =>
    by_cases hb : p ∈ s.blocks
    · obtain ⟨t, ht⟩ := exists_unlinkNode hb
      rw [rlFree_found hs ht]
      exact h.unlink ht
    · rw [rlFree_missing hs hb]
      exact h.passLock

theorem rlMemoryTraceInit (h : Tracked ⟨s, L⟩) (state mutexInit : Bool) :
    Tracked ⟨rlMemoryTraceInit state mutexInit s, L.observe (.init state mutexInit) .nothing⟩ := by
  cases hs : s.rlMemoryTraceState with
  | true =>
    have ht : L.tracing = true := h.tracing.symm.trans hs
    cases state with
    | true =>
      have he : ({ L with tracing := true } : Ledger) = L := by rw [← ht]
      simpa [Memory.rlMemoryTraceInit, hs, Ledger.observe, he] using h
    | false => simpa [Memory.rlMemoryTraceInit, hs, Ledger.observe] using h
  | false =>
    have hnil := h.nodes_nil hs
    have hlist : Matches [] L := hnil ▸ h.list
    have hheap : Owns s.heap [] L := by simpa [MemState.nodeBlocks, hnil] using h.heap
    cases state with
    | true =>
      simp only [Memory.rlMemoryTraceInit, hs, Ledger.observe, Bool.false_eq_true, ↓reduceIte]
      exact ⟨rfl, ⟨hlist.nodup, hlist.sound, hlist.complete⟩,
        ⟨hheap.nodup, hheap.live, hheap.held⟩, fun _ => rfl⟩
    | false =>
      simp only [Memory.rlMemoryTraceInit, hs, Ledger.observe, Bool.false_eq_true, ↓reduceIte]
      exact ⟨h.tracing.symm.trans hs |>.symm, h.list, h.heap, h.off⟩

theorem rlMemoryTraceDeinit (h : Tracked ⟨s, L⟩) (ans : DeinitAnswers) :
    Tracked ⟨(rlMemoryTraceDeinit ans s).2.2,
      L.observe (.deinit ans) (.code (Memory.rlMemoryTraceDeinit ans s).1)⟩ := by
  rcases rlMemoryTraceDeinit_cases ans s with ⟨hc, he | he⟩ | ⟨_, hc, d, he, hd⟩
  · rw [hc, he]
    exact h
  · rw [hc, he]
    exact h.passLock
  · rw [hc, he]
    refine ⟨rfl, Matches.close L, ⟨List.nodup_nil, nofun, ?_⟩, fun _ => rfl⟩
    intro p e hp hl
    simp only [Ledger.observe, ↓reduceIte, Ledger.close, Option.map_eq_some_iff] at hp
    obtain ⟨e', hp, rfl⟩ := hp
    obtain ⟨hheap, hn⟩ := h.heap.held p e' hp hl
    refine ⟨?_, List.not_mem_nil⟩
    change (d.nodes s.gMemHeader).heap p = _
    rw [d.heap_other hn, hd]
    exact hheap

theorem call {w : World} (h : Tracked w) (c : Call) (hc : w.Enabled c) : Tracked (w.call c) := by
  obtain ⟨s, L⟩ := w
  cases c with
  | init state mutexInit => exact h.rlMemoryTraceInit state mutexInit
  | deinit ans => exact h.rlMemoryTraceDeinit ans
  | malloc size site block node => exact h.rlMalloc site hc
  | calloc block count site zeroed node => exact h.rlCalloc site hc
  | realloc ptr size site block node =>
    cases ptr with
    | none =>
      have hm := h.rlMalloc site hc
      rw [← rlRealloc_null] at hm
      exact hm
    | some p => exact h.rlRealloc site hc.1.2 hc.2
  | free ptr =>
    cases ptr with
    | none => exact h
    | some p => exact h.rlFree fun hs => (hc hs).2
  | systemMalloc p bytes => exact ⟨h.tracing, h.list, h.heap.allocate hc bytes, h.off⟩
  | systemFree p => exact ⟨h.tracing, h.list, h.heap.release hc.1.2 hc.2, h.off⟩

theorem of_reached {w : World} (h : Reached w) : Tracked w := by
  obtain ⟨heap, hr⟩ := h
  exact hr.invariant (fun w c hw hc => hw.call c hc) (start heap)

end Tracked

end RlLibrary.Memory
