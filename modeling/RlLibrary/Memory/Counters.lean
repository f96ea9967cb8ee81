import RlLibrary.Memory.Ledger

namespace RlLibrary.Memory

open Foundation MemState

def recordedBytes (nodes : List MemNode) : ℕ := (nodes.map (fun n => n.size.toNat)).sum

theorem recordedBytes_middle (before after : List MemNode) (n : MemNode) :
    recordedBytes (before ++ n :: after) = recordedBytes (before ++ after) + n.size.toNat := by
  simp only [recordedBytes, List.map_append, List.map_cons, List.sum_append, List.sum_cons]
  omega

theorem length_middle (before after : List MemNode) (n : MemNode) :
    (before ++ n :: after).length = (before ++ after).length + 1 := by
  simp only [List.length_append, List.length_cons]
  omega

structure ReleasesAll (nodes : List MemNode) (count bytes : BitVec 32) : Prop where
  count : count = BitVec.ofNat 32 nodes.length
  bytes : bytes = BitVec.ofNat 32 (recordedBytes nodes)

namespace ReleasesAll

variable {count bytes : BitVec 32}

theorem insert {before after : List MemNode} (h : ReleasesAll (before ++ after) count bytes)
    (n : MemNode) : ReleasesAll (before ++ n :: after) (count + 1) (bytes + n.size) where
  count := by
    rw [h.count, length_middle, BitVec.ofNat_add]
    rfl
  bytes := by
    rw [h.bytes, recordedBytes_middle, BitVec.ofNat_add, BitVec.ofNat_toNat, BitVec.setWidth_eq]

theorem push {nodes : List MemNode} (h : ReleasesAll nodes count bytes) (n : MemNode) :
    ReleasesAll (n :: nodes) (count + 1) (bytes + n.size) := by
  have hn : ReleasesAll ([] ++ nodes) count bytes := h
  exact hn.insert n

theorem cut {before after : List MemNode} {n : MemNode}
    (h : ReleasesAll (before ++ n :: after) count bytes) :
    ReleasesAll (before ++ after) (count - 1) (bytes - n.size) where
  count := by
    rw [h.count, length_middle, BitVec.ofNat_add]
    exact BitVec.add_sub_cancel _ _
  bytes := by
    rw [h.bytes, recordedBytes_middle, BitVec.ofNat_add, BitVec.ofNat_toNat, BitVec.setWidth_eq]
    exact BitVec.add_sub_cancel _ _

theorem rekey {before after : List MemNode} {n : MemNode}
    (h : ReleasesAll (before ++ n :: after) count bytes) (m : MemNode) :
    ReleasesAll (before ++ m :: after) count (bytes - n.size + m.size) := by
  have hi := h.cut.insert m
  rwa [BitVec.sub_add_cancel] at hi

end ReleasesAll

def CountersAgree (s : MemState) : Prop :=
  s.rlMemoryTraceState = true →
    ReleasesAll s.gMemHeader s.gAllocBlockCount s.gAllocTotalBytes

structure Consistent (s : MemState) : Prop where
  agree : CountersAgree s
  off : s.rlMemoryTraceState = false → s.gMemHeader = []

namespace Consistent

variable {s : MemState}

theorem obtainBlock (h : Consistent s) (bytes : ℕ) (size : BitVec 32) (site : CallSite)
    (block node : Option Addr) : Consistent (obtainBlock bytes size site block node s).2 := by
  cases block with
  | none => exact h
  | some p =>
    cases hs : s.rlMemoryTraceState with
    | false =>
      rw [obtainBlock_off _ _ _ hs]
      exact ⟨h.agree, h.off⟩
    | true =>
      rw [obtainBlock_on _ _ _ hs]
      cases node with
      | none => exact ⟨h.agree, h.off⟩
      | some a =>
        refine ⟨fun _ => ?_, fun hf => ?_⟩
        · exact (h.agree hs).push ⟨site, a, p, size⟩
        · have hf' : s.rlMemoryTraceState = false := hf
          rw [hs] at hf'
          cases hf'

theorem rlRealloc (h : Consistent s) (ptr : Option Addr) (size : BitVec 32) (site : CallSite)
    (block node : Option Addr) : Consistent (rlRealloc ptr size site block node s).2 := by
  by_cases hz : size = 0#32
  · simpa [Memory.rlRealloc, hz] using h
  cases ptr with
  | none =>
    rw [rlRealloc_null, rlMalloc_pos _ _ hz]
    exact h.obtainBlock ..
  | some p =>
    cases block with
    | none => rwa [rlRealloc_failed]
    | some q =>
      cases hs : s.rlMemoryTraceState with
      | false =>
        rw [rlRealloc_off _ _ hs hz]
        exact ⟨h.agree, h.off⟩
      | true =>
        by_cases hb : p ∈ s.blocks
        · obtain ⟨t, ht⟩ := exists_rekeyNode (s := s.resize p q size.toNat) q size site hb
          rw [rlRealloc_found _ _ hs hz ht]
          obtain ⟨before, cur, after, hl, rfl⟩ := rekeyNode_eq_some ht
          have hnodes : s.gMemHeader = before ++ cur :: after := (locate_eq_some hl).1
          refine ⟨fun _ => ?_, fun hf => absurd (hs.symm.trans hf) (by decide)⟩
          exact (hnodes ▸ h.agree hs).rekey ⟨site, cur.addr, q, size⟩
        · rw [rlRealloc_missing _ _ hs hz hb]
          cases node with
          | none => exact ⟨h.agree, h.off⟩
          | some a =>
            refine ⟨fun _ => ?_, fun hf => absurd (hs.symm.trans hf) (by decide)⟩
            exact (h.agree hs).push ⟨site, a, q, size⟩

theorem rlFree (h : Consistent s) (ptr : Option Addr) : Consistent (rlFree ptr s).2 := by
  cases ptr with
  | none => exact h
  | some p =>
    cases hs : s.rlMemoryTraceState with
    | false =>
      rw [rlFree_off hs]
      exact ⟨h.agree, h.off⟩
    | true =>
      by_cases hb : p ∈ s.blocks
      · obtain ⟨t, ht⟩ := exists_unlinkNode hb
        rw [rlFree_found hs ht]
        obtain ⟨before, temp, after, hl, rfl⟩ := unlinkNode_eq_some ht
        have hnodes : s.gMemHeader = before ++ temp :: after := (locate_eq_some hl).1
        refine ⟨fun _ => ?_, fun hf => absurd (hs.symm.trans hf) (by decide)⟩
        exact (hnodes ▸ h.agree hs).cut
      · rw [rlFree_missing hs hb]
        exact ⟨h.agree, h.off⟩

theorem rlMemoryTraceDeinit (h : Consistent s) (ans : DeinitAnswers) :
    Consistent (rlMemoryTraceDeinit ans s).2.2 := by
  rcases rlMemoryTraceDeinit_cases ans s with ⟨_, he | he⟩ | ⟨_, _, d, he, _⟩
  · rwa [he]
  · rw [he]
    exact ⟨h.agree, h.off⟩
  · rw [he]
    exact ⟨nofun, fun _ => rfl⟩

theorem rlMemoryTraceInit (h : Consistent s) (state mutexInit : Bool)
    (hz : state = true → s.rlMemoryTraceState = false →
      s.gAllocBlockCount = 0 ∧ s.gAllocTotalBytes = 0) :
    Consistent (rlMemoryTraceInit state mutexInit s) := by
  cases hs : s.rlMemoryTraceState with
  | true => simpa [Memory.rlMemoryTraceInit, hs] using h
  | false =>
    cases state with
    | false =>
      simp only [Memory.rlMemoryTraceInit, hs, Bool.false_eq_true, ↓reduceIte]
      exact ⟨nofun, fun _ => h.off hs⟩
    | true =>
      obtain ⟨hcount, hbytes⟩ := hz rfl hs
      simp only [Memory.rlMemoryTraceInit, hs, Bool.false_eq_true, ↓reduceIte]
      exact ⟨fun _ => ⟨hcount, hbytes⟩, nofun⟩

theorem call {w : World} (h : Consistent w.mem) (c : Call)
    (hz : ∀ mutexInit, c = .init true mutexInit → w.mem.rlMemoryTraceState = false →
      w.mem.gAllocBlockCount = 0 ∧ w.mem.gAllocTotalBytes = 0) :
    Consistent (w.call c).mem := by
  cases c with
  | init state mutexInit => exact h.rlMemoryTraceInit state mutexInit fun hs => hz mutexInit (hs ▸ rfl)
  | deinit ans => exact h.rlMemoryTraceDeinit ans
  | malloc size site block node =>
    by_cases hsize : size = 0#32
    · simpa [World.call, Call.apply, rlMalloc, hsize] using h
    · change Consistent (rlMalloc size site block node w.mem).2
      rw [rlMalloc_pos _ _ hsize]
      exact h.obtainBlock ..
  | calloc block count site zeroed node =>
    by_cases hsize : block = 0#32 ∨ count = 0#32
    · simpa [World.call, Call.apply, rlCalloc, hsize] using h
    · simp only [World.call, Call.apply, rlCalloc, hsize, ↓reduceIte]
      exact h.obtainBlock ..
  | realloc ptr size site block node => exact h.rlRealloc ..
  | free ptr => exact h.rlFree ptr
  | systemMalloc p bytes => exact ⟨h.agree, h.off⟩
  | systemFree p => exact ⟨h.agree, h.off⟩

end Consistent

/-- In the run `cs`, tracing is only ever switched on with both counters at zero. -/
def OpensAtZero (heap : Heap) (cs : List Call) : Prop :=
  ∀ pre mutexInit, pre ++ [.init true mutexInit] <+: cs →
    let s := (library.exec (World.start heap) pre).mem
    s.rlMemoryTraceState = false → s.gAllocBlockCount = 0 ∧ s.gAllocTotalBytes = 0

theorem consistent_exec {heap : Heap} {cs : List Call} (hz : OpensAtZero heap cs) :
    ∀ pre, pre <+: cs → Consistent (library.exec (World.start heap) pre).mem := by
  apply library.prefix_invariant (P := fun w => Consistent w.mem)
  · exact ⟨nofun, fun _ => rfl⟩
  · intro pre c hpre hc
    apply hc.call c
    rintro mutexInit rfl
    exact hz pre mutexInit hpre

theorem counters_agree_iff (heap : Heap) (cs : List Call) :
    (∀ pre, pre <+: cs → CountersAgree (library.exec (World.start heap) pre).mem) ↔
      OpensAtZero heap cs := by
  constructor
  · intro h pre mutexInit hpre
    dsimp only
    intro hs
    have hon := h _ hpre
    rw [Machine.exec_append] at hon
    simp only [CountersAgree, library, Machine.exec_cons, Machine.exec_nil, World.call, Call.apply,
      rlMemoryTraceInit] at hon hs
    simp only [hs, Bool.false_eq_true, ↓reduceIte, forall_const] at hon
    exact ⟨hon.count, hon.bytes⟩
  · intro h pre hpre
    exact (consistent_exec h pre hpre).agree

def leakyRounds : List Call :=
  [.init true true, .malloc 8#32 ⟨"a.c", "f", 1⟩ (some 100) (some 200),
    .deinit ⟨some [47], some [], some .zero, true⟩, .init true true]

theorem counters_survive_deinit :
    library.Valid (World.start fun _ => none) leakyRounds ∧
      ¬ ∀ pre, pre <+: leakyRounds →
        CountersAgree (library.exec (World.start fun _ => none) pre).mem := by
  refine ⟨by decide, fun h => ?_⟩
  have hend := (h _ (List.prefix_refl _) rfl).count
  revert hend
  decide

end RlLibrary.Memory
