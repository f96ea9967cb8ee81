import Mathlib.Data.List.Perm.Basic
import RlLibrary.Memory.Ledger

namespace RlLibrary.Memory

open Foundation MemState

structure Matches (nodes : List MemNode) (L : Ledger) : Prop where
  nodup : (nodes.map MemNode.ptr).Nodup
  sound : ∀ n ∈ nodes, ∃ e, L.handed n.ptr = some e ∧ e.traced = true ∧
    e.site = n.toCallSite ∧ n.size = BitVec.ofNat 32 e.bytes
  complete : ∀ p e, L.handed p = some e → e.traced = true →
    e.lost = false ∧ p ∈ nodes.map MemNode.ptr

structure Owns (heap : Heap) (nodeBlocks : List Addr) (L : Ledger) : Prop where
  nodup : nodeBlocks.Nodup
  live : ∀ a ∈ nodeBlocks, heap a ≠ none
  held : ∀ p e, L.handed p = some e → e.lost = false → heap p = some e.bytes ∧ p ∉ nodeBlocks

structure Tracked (w : World) : Prop where
  tracing : w.mem.rlMemoryTraceState = w.ledger.tracing
  list : Matches w.mem.gMemHeader w.ledger
  heap : Owns w.mem.heap w.mem.nodeBlocks w.ledger
  off : w.ledger.tracing = false → w.mem.gMemHeader = []

namespace Matches

variable {nodes : List MemNode} {L : Ledger}

theorem perm {nodes' : List MemNode} (h : Matches nodes L) (hp : nodes.Perm nodes') :
    Matches nodes' L where
  nodup := (hp.map MemNode.ptr).nodup_iff.mp h.nodup
  sound n hn := h.sound n (hp.mem_iff.mpr hn)
  complete p e hpe ht :=
    ⟨(h.complete p e hpe ht).1, (hp.map MemNode.ptr).mem_iff.mp (h.complete p e hpe ht).2⟩

theorem mem_iff (h : Matches nodes L) (p : Addr) :
    p ∈ nodes.map MemNode.ptr ↔ ∃ e, L.handed p = some e ∧ e.traced = true := by
  constructor
  · intro hp
    obtain ⟨n, hn, rfl⟩ := List.mem_map.mp hp
    obtain ⟨e, he, ht, _⟩ := h.sound n hn
    exact ⟨e, he, ht⟩
  · rintro ⟨e, he, ht⟩
    exact (h.complete p e he ht).2

theorem not_mem (h : Matches nodes L) {p : Addr} (hp : ¬ L.Holds p) :
    p ∉ nodes.map MemNode.ptr := by
  intro hm
  obtain ⟨e, he, ht⟩ := (h.mem_iff p).mp hm
  exact hp ⟨e, he, (h.complete p e he ht).1⟩

theorem give (h : Matches nodes L) (ht : L.tracing = true) {p : Addr}
    (hp : p ∉ nodes.map MemNode.ptr) (bytes : ℕ) (site : CallSite) (a : Addr) :
    Matches (⟨site, a, p, BitVec.ofNat 32 bytes⟩ :: nodes) (L.give p bytes site) where
  nodup := List.nodup_cons.mpr ⟨hp, h.nodup⟩
  sound n hn := by
    rcases List.mem_cons.mp hn with rfl | hn
    · exact ⟨_, Function.update_self .., ht, rfl, rfl⟩
    · have hne : n.ptr ≠ p := fun he => hp (he ▸ List.mem_map_of_mem hn)
      rw [Ledger.give_other _ _ _ hne]
      exact h.sound n hn
  complete q e he hq := by
    by_cases hqp : q = p
    · subst hqp
      simp only [Ledger.give_self, Option.some.injEq] at he
      exact ⟨by rw [← he], by simp⟩
    · simp only [Ledger.give, ne_eq, hqp, not_false_eq_true, Function.update_of_ne] at he
      have hc := h.complete q e he hq
      exact ⟨hc.1, List.mem_cons_of_mem _ hc.2⟩

theorem give_off (h : Matches [] L) (ht : L.tracing = false) (p : Addr) (bytes : ℕ)
    (site : CallSite) : Matches [] (L.give p bytes site) where
  nodup := List.nodup_nil
  sound n hn := by cases hn
  complete q e he hq := by
    by_cases hqp : q = p
    · subst hqp
      simp only [Ledger.give_self, Option.some.injEq] at he
      rw [← he] at hq
      simp [ht] at hq
    · simp only [Ledger.give, ne_eq, hqp, not_false_eq_true, Function.update_of_ne] at he
      exact h.complete q e he hq

theorem take (h : Matches nodes L) {p : Addr} (hp : p ∉ nodes.map MemNode.ptr) :
    Matches nodes (L.take p) where
  nodup := h.nodup
  sound n hn := by
    have hne : n.ptr ≠ p := fun he => hp (he ▸ List.mem_map_of_mem hn)
    rw [Ledger.take_other _ hne]
    exact h.sound n hn
  complete q e he hq := by
    by_cases hqp : q = p
    · subst hqp
      simp at he
    · simp only [Ledger.take, ne_eq, hqp, not_false_eq_true, Function.update_of_ne] at he
      exact h.complete q e he hq

theorem unlink (h : Matches nodes L) {p : Addr} {before after : List MemNode} {n : MemNode}
    (hl : locate MemNode.ptr p nodes = some (before, n, after)) :
    Matches (before ++ after) (L.take p) := by
  have hcut := locate_filter h.nodup hl
  constructor
  · rw [hcut]
    exact h.nodup.sublist (List.filter_sublist.map _)
  · intro m hm
    rw [hcut, List.mem_filter, decide_eq_true_eq] at hm
    rw [Ledger.take_other _ hm.2]
    exact h.sound m hm.1
  · intro q e he hq
    by_cases hqp : q = p
    · subst hqp
      simp at he
    · simp only [Ledger.take, ne_eq, hqp, not_false_eq_true, Function.update_of_ne] at he
      obtain ⟨hlost, hmem⟩ := h.complete q e he hq
      obtain ⟨m, hm, rfl⟩ := List.mem_map.mp hmem
      refine ⟨hlost, List.mem_map_of_mem ?_⟩
      rw [hcut, List.mem_filter, decide_eq_true_eq]
      exact ⟨hm, hqp⟩

theorem lose (h : Matches nodes L) {p : Addr} (hp : p ∉ nodes.map MemNode.ptr) :
    Matches nodes (L.lose p) where
  nodup := h.nodup
  sound n hn := by
    have hne : n.ptr ≠ p := fun he => hp (he ▸ List.mem_map_of_mem hn)
    rw [Ledger.lose_other _ hne]
    exact h.sound n hn
  complete q e he hq := by
    by_cases hqp : q = p
    · subst hqp
      simp only [Ledger.lose_self, Option.map_eq_some_iff] at he
      obtain ⟨e', he', rfl⟩ := he
      exact absurd (h.complete q e' he' hq).2 hp
    · simp only [Ledger.lose, ne_eq, hqp, not_false_eq_true, Function.update_of_ne] at he
      exact h.complete q e he hq

theorem close (L : Ledger) : Matches [] L.close where
  nodup := List.nodup_nil
  sound n hn := by cases hn
  complete p e he ht := by
    simp only [Ledger.close, Option.map_eq_some_iff] at he
    obtain ⟨e', _, rfl⟩ := he
    cases ht

end Matches

namespace Owns

variable {heap : Heap} {nodeBlocks : List Addr} {L : Ledger}

theorem not_mem (h : Owns heap nodeBlocks L) {a : Addr} (ha : heap a = none) : a ∉ nodeBlocks :=
  fun hm => h.live a hm ha

theorem not_holds (h : Owns heap nodeBlocks L) {a : Addr} (ha : heap a = none) : ¬ L.Holds a := by
  rintro ⟨e, he, hl⟩
  rw [(h.held a e he hl).1] at ha
  cases ha

theorem allocate (h : Owns heap nodeBlocks L) {p : Addr} (hp : heap p = none) (n : ℕ) :
    Owns (heap.allocate p n) nodeBlocks L where
  nodup := h.nodup
  live a ha := by
    have hne : a ≠ p := fun he => h.not_mem hp (he ▸ ha)
    rw [Heap.allocate_other _ n hne]
    exact h.live a ha
  held q e he hl := by
    have hne : q ≠ p := fun hq => h.not_holds hp (hq ▸ ⟨e, he, hl⟩)
    rw [Heap.allocate_other _ n hne]
    exact h.held q e he hl

theorem release (h : Owns heap nodeBlocks L) {p : Addr} (hp : p ∉ nodeBlocks)
    (hh : ¬ L.Holds p) : Owns (heap.release p) nodeBlocks L where
  nodup := h.nodup
  live a ha := by
    have hne : a ≠ p := fun he => hp (he ▸ ha)
    rw [Heap.release_other _ hne]
    exact h.live a ha
  held q e he hl := by
    have hne : q ≠ p := fun hq => hh (hq ▸ ⟨e, he, hl⟩)
    rw [Heap.release_other _ hne]
    exact h.held q e he hl

theorem push (h : Owns heap nodeBlocks L) {a : Addr} (ha : heap a = none) (n : ℕ) :
    Owns (heap.allocate a n) (a :: nodeBlocks) L where
  nodup := List.nodup_cons.mpr ⟨h.not_mem ha, h.nodup⟩
  live b hb := by
    rcases List.mem_cons.mp hb with rfl | hb
    · simp
    · exact (h.allocate ha n).live b hb
  held q e he hl := by
    obtain ⟨hb, hn⟩ := (h.allocate ha n).held q e he hl
    refine ⟨hb, ?_⟩
    simp only [List.mem_cons, not_or]
    exact ⟨fun hq => h.not_holds ha (hq ▸ ⟨e, he, hl⟩), hn⟩

theorem give (h : Owns heap nodeBlocks L) {p : Addr} (hp : heap p = none) (n : ℕ)
    (site : CallSite) : Owns (heap.allocate p n) nodeBlocks (L.give p n site) where
  nodup := h.nodup
  live := (h.allocate hp n).live
  held q e he hl := by
    by_cases hqp : q = p
    · subst hqp
      simp only [Ledger.give_self, Option.some.injEq] at he
      rw [← he]
      exact ⟨by simp, h.not_mem hp⟩
    · simp only [Ledger.give, ne_eq, hqp, not_false_eq_true, Function.update_of_ne] at he
      exact (h.allocate hp n).held q e he hl

theorem weaken {L' : Ledger} (h : Owns heap nodeBlocks L)
    (hL : ∀ p e, L'.handed p = some e → e.lost = false →
      ∃ e', L.handed p = some e' ∧ e'.lost = false ∧ e'.bytes = e.bytes) :
    Owns heap nodeBlocks L' where
  nodup := h.nodup
  live := h.live
  held p e he hl := by
    obtain ⟨e', he', hl', hb⟩ := hL p e he hl
    rw [← hb]
    exact h.held p e' he' hl'

theorem take (h : Owns heap nodeBlocks L) {p : Addr} (hp : p ∉ nodeBlocks) :
    Owns (heap.release p) nodeBlocks (L.take p) := by
  have hL : Owns heap nodeBlocks (L.take p) := by
    apply h.weaken
    intro q e he hl
    by_cases hqp : q = p
    · subst hqp
      simp at he
    · simp only [Ledger.take, ne_eq, hqp, not_false_eq_true, Function.update_of_ne] at he
      exact ⟨e, he, hl, rfl⟩
  apply hL.release hp
  rintro ⟨e, he, _⟩
  simp at he

theorem lose (h : Owns heap nodeBlocks L) {p : Addr} (hp : p ∉ nodeBlocks) :
    Owns (heap.release p) nodeBlocks (L.lose p) := by
  have key : ¬ (L.lose p).Holds p := by
    rintro ⟨e, he, hl⟩
    simp only [Ledger.lose_self, Option.map_eq_some_iff] at he
    obtain ⟨e', _, rfl⟩ := he
    cases hl
  have hL : Owns heap nodeBlocks (L.lose p) := by
    apply h.weaken
    intro q e he hl
    by_cases hqp : q = p
    · subst hqp
      exact absurd ⟨e, he, hl⟩ key
    · simp only [Ledger.lose, ne_eq, hqp, not_false_eq_true, Function.update_of_ne] at he
      exact ⟨e, he, hl, rfl⟩
  exact hL.release hp key

theorem move (h : Owns heap nodeBlocks L) {p q : Addr} (hp : p ∉ nodeBlocks)
    (hm : heap.Movable p q) (n : ℕ) (site : CallSite) :
    Owns (heap.resize p q n) nodeBlocks ((L.take p).give q n site) :=
  (h.take hp).give hm.free n site

theorem cut {before after : List Addr} {a : Addr} (h : Owns heap (before ++ a :: after) L) :
    Owns (heap.release a) (before ++ after) L := by
  have hd := List.nodup_middle.mp h.nodup
  constructor
  · exact (List.nodup_cons.mp hd).2
  · intro b hb
    have hne : b ≠ a := fun he => (List.nodup_cons.mp hd).1 (he ▸ hb)
    rw [Heap.release_other _ hne]
    apply h.live
    simp only [List.mem_append, List.mem_cons] at hb ⊢
    tauto
  · intro q e he hl
    obtain ⟨hb, hn⟩ := h.held q e he hl
    simp only [List.mem_append, List.mem_cons, not_or] at hn ⊢
    rw [Heap.release_other _ hn.2.1]
    exact ⟨hb, hn.1, hn.2.2⟩

end Owns

end RlLibrary.Memory
