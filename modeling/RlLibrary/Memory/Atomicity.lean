import RlLibrary.Memory.Ledger

namespace RlLibrary.Memory

open Foundation MemState

structure Unchanged (s t : MemState) : Prop where
  heap : t.heap = s.heap
  list : t.gMemHeader = s.gMemHeader
  count : t.gAllocBlockCount = s.gAllocBlockCount
  bytes : t.gAllocTotalBytes = s.gAllocTotalBytes

theorem Unchanged.refl (s : MemState) : Unchanged s s := ⟨rfl, rfl, rfl, rfl⟩

def FailureAtomic (s : MemState) (c : Call) : Prop :=
  (c.apply s).1 = .pointer none → Unchanged s (c.apply s).2

/-- `rl_realloc` of a block without node: resized, then given up for want of a node. -/
def DropsBlock (s : MemState) : Call → Prop
  | .realloc (some p) size _ (some _) none =>
    s.rlMemoryTraceState = true ∧ size ≠ 0#32 ∧ p ∉ s.blocks
  | _ => False

theorem DropsBlock.inv {s : MemState} {c : Call} (h : DropsBlock s c) :
    ∃ p size site q, c = .realloc (some p) size site (some q) none ∧
      s.rlMemoryTraceState = true ∧ size ≠ 0#32 ∧ p ∉ s.blocks := by
  unfold DropsBlock at h
  split at h
  · exact ⟨_, _, _, _, rfl, h⟩
  · exact h.elim

theorem obtainBlock_atomic {s : MemState} {bytes : ℕ} {size : BitVec 32} {site : CallSite}
    {block node : Option Addr} (hf : World.Fresh s.heap bytes block node)
    (hnull : (obtainBlock bytes size site block node s).1 = none) :
    Unchanged s (obtainBlock bytes size site block node s).2 := by
  cases block with
  | none => exact Unchanged.refl s
  | some p =>
    cases hs : s.rlMemoryTraceState with
    | false =>
      rw [obtainBlock_off _ _ _ hs] at hnull
      cases hnull
    | true =>
      rw [obtainBlock_on _ _ _ hs] at hnull ⊢
      cases node with
      | some a => cases hnull
      | none =>
        have hheap := s.heap.release_allocate bytes (hf p rfl).1
        exact ⟨hheap, rfl, rfl, rfl⟩

theorem rlMalloc_atomic {s : MemState} {size : BitVec 32} {site : CallSite}
    {block node : Option Addr} (hf : World.Fresh s.heap size.toNat block node)
    (hnull : (rlMalloc size site block node s).1 = none) :
    Unchanged s (rlMalloc size site block node s).2 := by
  by_cases hz : size = 0#32
  · simpa [rlMalloc, hz] using Unchanged.refl s
  · rw [rlMalloc_pos _ _ hz] at hnull ⊢
    exact obtainBlock_atomic hf hnull

theorem rlCalloc_atomic {s : MemState} {block count : BitVec 32} {site : CallSite}
    {zeroed node : Option Addr}
    (hf : World.Fresh s.heap (block.toNat * count.toNat) zeroed node)
    (hnull : (rlCalloc block count site zeroed node s).1 = none) :
    Unchanged s (rlCalloc block count site zeroed node s).2 := by
  by_cases hz : block = 0#32 ∨ count = 0#32
  · simpa [rlCalloc, hz] using Unchanged.refl s
  · simp only [rlCalloc, hz, ↓reduceIte] at hnull ⊢
    exact obtainBlock_atomic hf hnull

theorem rlRealloc_atomic {s : MemState} {p : Addr} {size : BitVec 32} {site : CallSite}
    {block node : Option Addr} (hd : ¬ DropsBlock s (.realloc (some p) size site block node))
    (hnull : (rlRealloc (some p) size site block node s).1 = none) :
    Unchanged s (rlRealloc (some p) size site block node s).2 := by
  by_cases hz : size = 0#32
  · simpa [rlRealloc, hz] using Unchanged.refl s
  cases block with
  | none =>
    rw [rlRealloc_failed]
    exact Unchanged.refl s
  | some q =>
    exfalso
    cases hs : s.rlMemoryTraceState with
    | false =>
      rw [rlRealloc_off _ _ hs hz] at hnull
      cases hnull
    | true =>
      by_cases hb : p ∈ s.blocks
      · obtain ⟨t, ht⟩ := exists_rekeyNode (s := s.resize p q size.toNat) q size site hb
        rw [rlRealloc_found _ _ hs hz ht] at hnull
        cases hnull
      · rw [rlRealloc_missing _ _ hs hz hb] at hnull
        cases node with
        | some a => cases hnull
        | none => exact hd ⟨hs, hz, hb⟩

theorem rlRealloc_drops {s : MemState} {p q : Addr} {size : BitVec 32} (site : CallSite)
    (hm : s.heap.Movable p q) (hs : s.rlMemoryTraceState = true) (hz : size ≠ 0#32)
    (hb : p ∉ s.blocks) :
    (rlRealloc (some p) size site (some q) none s).1 = none ∧
      (rlRealloc (some p) size site (some q) none s).2.heap = s.heap.release p := by
  rw [rlRealloc_missing _ _ hs hz hb, recordBlock_none]
  have hheap := s.heap.release_resize size.toNat hm
  exact ⟨rfl, hheap⟩

theorem failure_atomic_iff {w : World} {c : Call} (hc : w.Enabled c) :
    FailureAtomic w.mem c ↔ ¬ DropsBlock w.mem c := by
  constructor
  · intro h hd
    obtain ⟨p, size, site, q, rfl, hs, hz, hb⟩ := hd.inv
    obtain ⟨hnull, hheap⟩ := rlRealloc_drops site (hc.2 q rfl).1 hs hz hb
    have hun := h (congrArg Reply.pointer hnull)
    have hp : (w.mem.heap.release p) p = w.mem.heap p := congrFun (hheap.symm.trans hun.heap) p
    rw [Heap.release_self] at hp
    exact hc.1.1 hp.symm
  · intro hd hnull
    cases c with
    | init state mutexInit => cases hnull
    | deinit ans => cases hnull
    | malloc size site block node => exact rlMalloc_atomic hc (Reply.pointer.inj hnull)
    | calloc block count site zeroed node => exact rlCalloc_atomic hc (Reply.pointer.inj hnull)
    | realloc ptr size site block node =>
      cases ptr with
      | none =>
        simp only [Call.apply, rlRealloc_null] at hnull ⊢
        exact rlMalloc_atomic hc (Reply.pointer.inj hnull)
      | some p => exact rlRealloc_atomic hd (Reply.pointer.inj hnull)
    | free ptr => cases hnull
    | systemMalloc p bytes => cases hnull
    | systemFree p => cases hnull

theorem failure_atomic_malloc :
    let w := (World.start fun _ => none).call (.init true true)
    let c : Call := .malloc 8#32 ⟨"a.c", "f", 1⟩ (some 100) none
    FailureAtomic w.mem c ↔ ¬ DropsBlock w.mem c :=
  failure_atomic_iff (by decide)

theorem realloc_loses_block :
    let w := library.exec (World.start fun _ => none)
      [.malloc 8#32 ⟨"a.c", "f", 1⟩ (some 100) none, .init true true]
    let c : Call := .realloc (some 100) 16#32 ⟨"a.c", "f", 2⟩ (some 100) none
    Reached w ∧ w.Enabled c ∧ ¬ FailureAtomic w.mem c := by
  intro w c
  have hreached : Reached w := by
    apply reached_exec
    decide
  have hlegal : w.Enabled c := by decide
  have hnull : (c.apply w.mem).1 = .pointer none := by decide
  refine ⟨hreached, hlegal, ?_⟩
  intro h
  have hlive := congrFun (h hnull).heap 100
  revert hlive
  decide

end RlLibrary.Memory
