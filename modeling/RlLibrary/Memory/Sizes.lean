import RlLibrary.Memory.TraceList

namespace RlLibrary.Memory

open Foundation MemState

def SizesTrue (w : World) : Prop :=
  ∀ n ∈ w.mem.gMemHeader, w.mem.heap n.ptr = some n.size.toNat

def World.SizeFits (w : World) : Call → Prop
  | .calloc block count _ (some _) (some _) =>
    w.mem.rlMemoryTraceState = true → block.toNat * count.toNat < 2 ^ 32
  | _ => True

def Ledger.Small (L : Ledger) : Prop :=
  ∀ p e, L.handed p = some e → e.traced = true → e.bytes < 2 ^ 32

theorem Tracked.sizesTrue_iff {w : World} (h : Tracked w) : SizesTrue w ↔ w.ledger.Small := by
  constructor
  · intro hsizes p e he ht
    obtain ⟨hlost, hmem⟩ := h.list.complete p e he ht
    obtain ⟨n, hn, rfl⟩ := List.mem_map.mp hmem
    have hheap := (h.heap.held n.ptr e he hlost).1
    rw [hsizes n hn, Option.some_inj] at hheap
    rw [← hheap]
    exact n.size.isLt
  · intro hsmall n hn
    obtain ⟨e, he, ht, _, hsize⟩ := h.list.sound n hn
    have hlost := (h.list.complete n.ptr e he ht).1
    rw [(h.heap.held n.ptr e he hlost).1, hsize, BitVec.toNat_ofNat,
      Nat.mod_eq_of_lt (hsmall n.ptr e he ht)]

theorem Tracked.small_off {w : World} (h : Tracked w) (hoff : w.mem.rlMemoryTraceState = false) :
    w.ledger.Small := by
  intro p e he ht
  have hmem := (h.list.complete p e he ht).2
  rw [h.off (h.tracing.symm.trans hoff)] at hmem
  cases hmem

theorem Ledger.small_close (L : Ledger) : L.close.Small := by
  intro p e he ht
  simp only [Ledger.close, Option.map_eq_some_iff] at he
  obtain ⟨e', _, rfl⟩ := he
  cases ht

theorem rlCalloc_answers {s : MemState} (hs : s.rlMemoryTraceState = true) {block count : BitVec 32}
    {site : CallSite} {zeroed node : Option Addr}
    (h : (rlCalloc block count site zeroed node s).1 ≠ none) :
    ∃ p a, zeroed = some p ∧ node = some a := by
  rw [rlCalloc] at h
  split_ifs at h with hzero
  · exact absurd rfl h
  · cases zeroed with
    | none => exact absurd rfl h
    | some p =>
      rw [obtainBlock_on _ _ _ hs] at h
      cases node with
      | none => exact absurd rfl h
      | some a => exact ⟨p, a, rfl, rfl⟩

theorem rlCalloc_given {s : MemState} (hs : s.rlMemoryTraceState = true) {block count : BitVec 32}
    (hproduct : 2 ^ 32 ≤ block.toNat * count.toNat) (site : CallSite) (p a : Addr) :
    (rlCalloc block count site (some p) (some a) s).1 = some p := by
  have hblock : block ≠ 0#32 := by
    rintro rfl
    simp at hproduct
  have hcount : count ≠ 0#32 := by
    rintro rfl
    simp at hproduct
  simp only [rlCalloc, hblock, hcount, or_self, ↓reduceIte]
  rw [obtainBlock_on _ _ _ hs]
  rfl

theorem Tracked.small_round {w : World} (h : Tracked w) (hsmall : w.ledger.Small) {c : Call}
    (hround : c.KeepsRound) (hc : w.SizeFits c) : (w.call c).ledger.Small := by
  have hall : w.ledger.All w.ledger.tracing (fun e => e.traced = true → e.bytes < 2 ^ 32) :=
    ⟨rfl, hsmall⟩
  refine (hall.observe (fun _ he => he) hround fun bytes site hrequest hsome ht => ?_).entries
  cases c with
  | malloc size site block node =>
    cases hrequest
    exact size.isLt
  | calloc block count site zeroed node =>
    cases hrequest
    have hs := h.tracing.trans ht
    obtain ⟨p, a, rfl, rfl⟩ := rlCalloc_answers hs (by simpa [Call.apply] using hsome)
    exact hc hs
  | realloc ptr size site block node =>
    cases hrequest
    exact size.isLt
  | init state mutexInit => cases hrequest
  | deinit ans => cases hrequest
  | free ptr => cases hrequest
  | systemMalloc p bytes => cases hrequest
  | systemFree p => cases hrequest

theorem Tracked.small_call {w : World} (h : Tracked w) (hsmall : w.ledger.Small) {c : Call}
    (hc : w.SizeFits c) : (w.call c).ledger.Small := by
  by_cases hround : c.KeepsRound
  · exact h.small_round hsmall hround hc
  · cases c with
    | init state mutexInit =>
      cases state with
      | true => exact hsmall
      | false => exact hsmall
    | deinit ans =>
      simp only [World.call, Call.apply, Ledger.observe]
      split_ifs
      · exact Ledger.small_close _
      · exact hsmall
    | _ => exact absurd trivial hround

theorem Tracked.sizeFits {w : World} (h : Tracked w) {c : Call} (hsmall : (w.call c).ledger.Small) :
    w.SizeFits c := by
  cases c with
  | calloc block count site zeroed node =>
    cases zeroed with
    | none => trivial
    | some p =>
      cases node with
      | none => trivial
      | some a =>
        intro hs
        by_contra hproduct
        have hgiven := rlCalloc_given hs (Nat.le_of_not_lt hproduct) site p a
        have hentry : (w.call (.calloc block count site (some p) (some a))).ledger.handed p =
            some ⟨block.toNat * count.toNat, site, true, false⟩ := by
          simp only [World.call, Call.apply, Ledger.observe, hgiven, Ledger.receive,
            Ledger.give_self, ← h.tracing, hs]
        exact hproduct (hsmall p _ hentry rfl)
  | init state mutexInit => trivial
  | deinit ans => trivial
  | malloc size site block node => trivial
  | realloc ptr size site block node => trivial
  | free ptr => trivial
  | systemMalloc p bytes => trivial
  | systemFree p => trivial

theorem Tracked.prefixes {w : World} (h : Tracked w) {cs : List Call} (hv : library.Valid w cs)
    (pre : List Call) (hpre : pre <+: cs) : Tracked (library.exec w pre) :=
  Machine.exec_invariant (fun _ c hw hc => hw.call c hc) h (library.valid_of_prefix hpre hv)

theorem sizes_true_iff {w : World} {cs : List Call} (hw : Reached w)
    (hoff : w.mem.rlMemoryTraceState = false) (hv : library.Valid w cs) :
    (∀ pre, pre <+: cs → SizesTrue (library.exec w pre)) ↔
      ∀ pre c, pre ++ [c] <+: cs → (library.exec w pre).SizeFits c := by
  have htracked := (Tracked.of_reached hw).prefixes hv
  constructor
  · intro hsizes pre c hpre
    have hafter := (htracked _ hpre).sizesTrue_iff.mp (hsizes _ hpre)
    rw [Machine.exec_append] at hafter
    exact (htracked pre ((List.prefix_append _ _).trans hpre)).sizeFits hafter
  · intro hfits pre hpre
    rw [(htracked pre hpre).sizesTrue_iff]
    have hstart : w.ledger.Small := (Tracked.of_reached hw).small_off hoff
    refine library.prefix_invariant (P := fun w => w.ledger.Small) hstart ?_ pre hpre
    intro pre c hpre hsmall
    exact (htracked pre ((List.prefix_append _ _).trans hpre)).small_call hsmall (hfits pre c hpre)

theorem sizes_true_run :
    (∀ pre, pre <+: [.init true true, .malloc 8#32 ⟨"a.c", "f", 1⟩ (some 100) (some 200),
        .calloc 2#32 4#32 ⟨"a.c", "f", 2⟩ (some 300) (some 400),
        .realloc (some 100) 16#32 ⟨"a.c", "g", 3⟩ (some 500) none, .free (some 300)] →
      SizesTrue (library.exec (World.start fun _ => none) pre)) ↔
    ∀ pre c, pre ++ [c] <+: [.init true true, .malloc 8#32 ⟨"a.c", "f", 1⟩ (some 100) (some 200),
        .calloc 2#32 4#32 ⟨"a.c", "f", 2⟩ (some 300) (some 400),
        .realloc (some 100) 16#32 ⟨"a.c", "g", 3⟩ (some 500) none, .free (some 300)] →
      (library.exec (World.start fun _ => none) pre).SizeFits c :=
  sizes_true_iff ⟨_, Machine.Reachable.refl ..⟩ rfl (by decide)

theorem wrapped_size :
    library.Valid (World.start fun _ => none) [.init true true,
      .calloc 65536#32 65536#32 ⟨"a.c", "f", 1⟩ (some 100) (some 200)] ∧
    ¬ SizesTrue (library.exec (World.start fun _ => none) [.init true true,
      .calloc 65536#32 65536#32 ⟨"a.c", "f", 1⟩ (some 100) (some 200)]) := by
  refine ⟨by decide, fun h => ?_⟩
  have hsize := h ⟨⟨"a.c", "f", 1⟩, 200, 100, 65536#32 * 65536#32⟩ List.mem_cons_self
  revert hsize
  decide

end RlLibrary.Memory
