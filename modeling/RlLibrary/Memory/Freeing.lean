import RlLibrary.Memory.Atomicity
import RlLibrary.Memory.Preservation

namespace RlLibrary.Memory

open Foundation MemState

structure FreesExactly (s : MemState) (p : Addr) : Prop where
  code : (rlFree (some p) s).1 = RL_SUCCESS
  gone : (rlFree (some p) s).2.heap p = none
  node : ∀ n ∈ s.gMemHeader, n.ptr = p → (rlFree (some p) s).2.heap n.addr = none
  others : ∀ q, q ≠ p → q ∉ s.nodeBlocks → (rlFree (some p) s).2.heap q = s.heap q
  list : (rlFree (some p) s).2.gMemHeader = s.gMemHeader.filter (fun n => n.ptr ≠ p)
  nodes : ∀ n ∈ (rlFree (some p) s).2.gMemHeader,
    (rlFree (some p) s).2.heap n.addr = s.heap n.addr

structure Refuses (s : MemState) (p : Addr) : Prop where
  code : (rlFree (some p) s).1 = RL_FAILED
  unchanged : Unchanged s (rlFree (some p) s).2

theorem freesExactly_off {s : MemState} (hs : s.rlMemoryTraceState = false)
    (hnil : s.gMemHeader = []) (p : Addr) : FreesExactly s p := by
  have hr := rlFree_off hs p
  constructor
  · rw [hr]
  · rw [hr]
    exact Heap.release_self ..
  · intro n hn
    rw [hnil] at hn
    cases hn
  · intro q hq _
    rw [hr]
    exact Heap.release_other _ hq
  · rw [hr]
    simp [MemState.release, hnil]
  · intro n hn
    rw [hr] at hn
    simp [MemState.release, hnil] at hn

theorem freesExactly_traced {w : World} (h : Tracked w) {p : Addr} (hp : p ∈ w.mem.blocks) :
    FreesExactly w.mem p := by
  have hs : w.mem.rlMemoryTraceState = true := by
    by_contra hs
    have hnil := h.off (h.tracing.symm.trans (Bool.eq_false_iff.mpr hs))
    rw [MemState.blocks, hnil] at hp
    cases hp
  obtain ⟨e, he, ht⟩ := (h.list.mem_iff p).mp hp
  have hnode : p ∉ w.mem.nodeBlocks := (h.heap.held p e he (h.list.complete p e he ht).1).2
  obtain ⟨t, hu⟩ := exists_unlinkNode hp
  have hr := rlFree_found hs hu
  obtain ⟨before, temp, after, hl, rfl⟩ := unlinkNode_eq_some hu
  have hcut := locate_filter h.list.nodup hl
  have htemp : temp.addr ∈ w.mem.nodeBlocks := List.mem_map_of_mem (locate_mem hl)
  constructor
  · rw [hr]
  · rw [hr]
    exact Heap.release_self ..
  · intro n hn hnp
    have hkey : n.ptr = temp.ptr := hnp.trans (locate_eq_some hl).2.1.symm
    have htp : temp.addr ≠ p := by
      intro he
      rw [he] at htemp
      exact hnode htemp
    rw [hr, List.inj_on_of_nodup_map h.list.nodup hn (locate_mem hl) hkey]
    exact (Heap.release_other _ htp).trans (Heap.release_self ..)
  · intro q hq hqn
    rw [hr]
    have hqt : q ≠ temp.addr := fun he => hqn (he ▸ htemp)
    exact (Heap.release_other _ hq).trans (Heap.release_other _ hqt)
  · rw [hr]
    exact hcut
  · intro n hn
    rw [hr] at hn ⊢
    have hd : (before.map MemNode.addr ++ temp.addr :: after.map MemNode.addr).Nodup := by
      have hn := h.heap.nodup
      rw [MemState.nodeBlocks, (locate_eq_some hl).1] at hn
      simpa using hn
    have hna : n.addr ∈ before.map MemNode.addr ++ after.map MemNode.addr := by
      rw [← List.map_append]
      exact List.mem_map_of_mem hn
    have hnt : n.addr ≠ temp.addr :=
      fun he => (List.nodup_cons.mp (List.nodup_middle.mp hd)).1 (he ▸ hna)
    have hmem : n ∈ w.mem.gMemHeader := List.mem_of_mem_filter (hcut ▸ hn)
    have hnp : n.addr ≠ p := fun he => hnode (he ▸ List.mem_map_of_mem hmem)
    exact (Heap.release_other _ hnp).trans (Heap.release_other _ hnt)

theorem refuses_untraced {s : MemState} {p : Addr} (hs : s.rlMemoryTraceState = true)
    (hp : p ∉ s.blocks) : Refuses s p := by
  have hr := rlFree_missing hs hp
  exact ⟨by rw [hr], by rw [hr]; exact ⟨rfl, rfl, rfl, rfl⟩⟩

theorem rlFree_held {w : World} {p : Addr} {e : Entry} (hw : Reached w)
    (he : w.ledger.handed p = some e) (hlost : e.lost = false) :
    w.mem.heap p = some e.bytes ∧
    (w.ledger.tracing = false ∨ e.traced = true → FreesExactly w.mem p) ∧
    (w.ledger.tracing = true ∧ e.traced = false → Refuses w.mem p) := by
  have h := Tracked.of_reached hw
  have hlive := (h.heap.held p e he hlost).1
  refine ⟨hlive, ?_, ?_⟩
  · rintro (hoff | ht)
    · exact freesExactly_off (h.tracing.trans hoff) (h.off hoff) p
    · exact freesExactly_traced h ((h.list.mem_iff p).mpr ⟨e, he, ht⟩)
  · rintro ⟨hon, ht⟩
    apply refuses_untraced (h.tracing.trans hon)
    intro hp
    obtain ⟨e', he', ht'⟩ := (h.list.mem_iff p).mp hp
    rw [he] at he'
    cases he'
    rw [ht] at ht'
    cases ht'

theorem rlFree_held_run :
    let w := library.exec (World.start fun _ => none)
      [.init true true, .malloc 8#32 ⟨"a.c", "f", 1⟩ (some 100) (some 200)]
    w.mem.heap 100 = some 8 ∧ FreesExactly w.mem 100 :=
  have h := rlFree_held (e := ⟨8, ⟨"a.c", "f", 1⟩, true, false⟩)
    (reached_exec (by decide)) (by decide) rfl
  ⟨h.1, h.2.1 (Or.inr rfl)⟩

theorem rlFree_refuses_held :
    let w := library.exec (World.start fun _ => none)
      [.malloc 8#32 ⟨"a.c", "f", 1⟩ (some 100) none, .init true true]
    Reached w ∧ w.ledger.Holds 100 ∧ (rlFree (some 100) w.mem).1 ≠ RL_SUCCESS :=
  ⟨reached_exec (by decide), by decide, by decide⟩

end RlLibrary.Memory
