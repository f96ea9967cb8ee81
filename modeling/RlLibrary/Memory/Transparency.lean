import RlLibrary.Memory.TraceList

namespace RlLibrary.Memory

open Foundation MemState

def MemState.clientHeap (s : MemState) : Heap := s.heap.hide s.nodeBlocks

/-- Calls of one round in which every node allocation succeeds and only NULL or blocks
currently handed out go to `rl_free` and `rl_realloc`. -/
def OwnBlocks (w : World) (c : Call) : Prop :=
  match c with
  | .malloc _ _ block node => block.isSome = true → node.isSome = true
  | .calloc _ _ _ zeroed node => zeroed.isSome = true → node.isSome = true
  | .realloc none _ _ block node => block.isSome = true → node.isSome = true
  | .realloc (some p) _ _ _ _ => (w.ledger.handed p).isSome = true
  | .free none => True
  | .free (some p) => (w.ledger.handed p).isSome = true
  | c => c.KeepsRound

instance (w : World) : (c : Call) → Decidable (OwnBlocks w c)
  | .init _ _ => .isFalse id
  | .deinit _ => .isFalse id
  | .malloc _ _ block node =>
    inferInstanceAs (Decidable (block.isSome = true → node.isSome = true))
  | .calloc _ _ _ zeroed node =>
    inferInstanceAs (Decidable (zeroed.isSome = true → node.isSome = true))
  | .realloc none _ _ block node =>
    inferInstanceAs (Decidable (block.isSome = true → node.isSome = true))
  | .realloc (some p) _ _ _ _ =>
    inferInstanceAs (Decidable ((w.ledger.handed p).isSome = true))
  | .free none => .isTrue trivial
  | .free (some p) => inferInstanceAs (Decidable ((w.ledger.handed p).isSome = true))
  | .systemMalloc _ _ => .isTrue trivial
  | .systemFree _ => .isTrue trivial

theorem OwnBlocks.keepsRound {w : World} {c : Call} (h : OwnBlocks w c) : c.KeepsRound := by
  cases c with
  | init state mutexInit => exact h
  | deinit ans => exact h
  | _ => trivial

def tracedClient : Machine World Call := library.restrict OwnBlocks

instance (w : World) (c : Call) : Decidable (tracedClient.enabled w c) :=
  inferInstanceAs (Decidable (w.Enabled c ∧ OwnBlocks w c))

structure Shadows (v w : World) : Prop where
  tracked : Tracked v
  allTraced : v.ledger.AllTraced
  off : w.mem.rlMemoryTraceState = false
  heap : w.mem.heap = v.mem.clientHeap

namespace Shadows

variable {v w : World}

theorem on (h : Shadows v w) : v.mem.rlMemoryTraceState = true :=
  h.tracked.tracing.trans h.allTraced.tracing

theorem mem_blocks (h : Shadows v w) {p : Addr} (hp : (v.ledger.handed p).isSome = true) :
    p ∈ v.mem.blocks ∧ p ∉ v.mem.nodeBlocks := by
  obtain ⟨e, he⟩ := Option.isSome_iff_exists.mp hp
  have ht := h.allTraced.traced p e he
  obtain ⟨hlost, hmem⟩ := h.tracked.list.complete p e he ht
  exact ⟨hmem, (h.tracked.heap.held p e he hlost).2⟩

theorem obtainBlock (h : Shadows v w) (bytes : ℕ) (size : BitVec 32) (site : CallSite)
    {block node : Option Addr} (hf : World.Fresh v.mem.heap bytes block node)
    (hn : block.isSome = true → node.isSome = true) :
    (obtainBlock bytes size site block node v.mem).1 =
        (Memory.obtainBlock bytes size site block node w.mem).1 ∧
      (Memory.obtainBlock bytes size site block node w.mem).2.rlMemoryTraceState = false ∧
      (Memory.obtainBlock bytes size site block node w.mem).2.heap =
        (Memory.obtainBlock bytes size site block node v.mem).2.clientHeap := by
  cases block with
  | none => exact ⟨rfl, h.off, h.heap⟩
  | some p =>
    obtain ⟨a, rfl⟩ := Option.isSome_iff_exists.mp (hn rfl)
    obtain ⟨hp, ha⟩ := hf p rfl
    rw [obtainBlock_on _ _ _ h.on, obtainBlock_off _ _ _ h.off]
    refine ⟨rfl, h.off, ?_⟩
    change w.mem.heap.allocate p bytes =
      ((v.mem.heap.allocate p bytes).allocate a sizeofMemNode).hide (a :: v.mem.nodeBlocks)
    rw [Heap.hide_push _ _ _ (ha a rfl), Heap.hide_allocate _ _ (h.tracked.heap.not_mem hp), h.heap]
    rfl

theorem rlMalloc (h : Shadows v w) (size : BitVec 32) (site : CallSite)
    {block node : Option Addr} (hf : World.Fresh v.mem.heap size.toNat block node)
    (hn : block.isSome = true → node.isSome = true) :
    (rlMalloc size site block node v.mem).1 = (Memory.rlMalloc size site block node w.mem).1 ∧
      (Memory.rlMalloc size site block node w.mem).2.rlMemoryTraceState = false ∧
      (Memory.rlMalloc size site block node w.mem).2.heap =
        (Memory.rlMalloc size site block node v.mem).2.clientHeap := by
  by_cases hz : size = 0#32
  · simpa [Memory.rlMalloc, hz] using ⟨h.off, h.heap⟩
  · rw [rlMalloc_pos _ _ hz, rlMalloc_pos _ _ hz]
    exact h.obtainBlock _ _ _ hf hn

theorem rlRealloc (h : Shadows v w) {p : Addr} (size : BitVec 32) (site : CallSite)
    {block : Option Addr} (node : Option Addr) (hp : (v.ledger.handed p).isSome = true)
    (hq : ∀ q ∈ block, v.mem.heap.Movable p q) :
    (rlRealloc (some p) size site block node v.mem).1 =
        (Memory.rlRealloc (some p) size site block node w.mem).1 ∧
      (Memory.rlRealloc (some p) size site block node w.mem).2.rlMemoryTraceState = false ∧
      (Memory.rlRealloc (some p) size site block node w.mem).2.heap =
        (Memory.rlRealloc (some p) size site block node v.mem).2.clientHeap := by
  by_cases hz : size = 0#32
  · simpa [Memory.rlRealloc, hz] using ⟨h.off, h.heap⟩
  cases block with
  | none =>
    rw [rlRealloc_failed, rlRealloc_failed]
    exact ⟨rfl, h.off, h.heap⟩
  | some q =>
    obtain ⟨hb, hnode⟩ := h.mem_blocks hp
    obtain ⟨t, ht⟩ := exists_rekeyNode (s := v.mem.resize p q size.toNat) q size site hb
    rw [rlRealloc_found _ _ h.on hz ht, rlRealloc_off _ _ h.off hz]
    obtain ⟨before, cur, after, hl, rfl⟩ := rekeyNode_eq_some ht
    have hnodes : v.mem.gMemHeader = before ++ cur :: after := (locate_eq_some hl).1
    have haddr : (before ++ ⟨site, cur.addr, q, size⟩ :: after).map MemNode.addr =
        v.mem.nodeBlocks := by
      rw [MemState.nodeBlocks, hnodes]
      simp
    have hqn : q ∉ v.mem.nodeBlocks := by
      rcases hq q rfl with rfl | hfree
      · exact hnode
      · exact h.tracked.heap.not_mem hfree
    refine ⟨rfl, h.off, ?_⟩
    change w.mem.heap.resize p q size.toNat = (v.mem.heap.resize p q size.toNat).hide
      ((before ++ ⟨site, cur.addr, q, size⟩ :: after).map MemNode.addr)
    rw [haddr, Heap.hide_resize _ _ hqn, h.heap]
    rfl

theorem rlFree (h : Shadows v w) {p : Addr} (hp : (v.ledger.handed p).isSome = true) :
    (rlFree (some p) v.mem).1 = (Memory.rlFree (some p) w.mem).1 ∧
      (Memory.rlFree (some p) w.mem).2.rlMemoryTraceState = false ∧
      (Memory.rlFree (some p) w.mem).2.heap = (Memory.rlFree (some p) v.mem).2.clientHeap := by
  obtain ⟨hb, _⟩ := h.mem_blocks hp
  obtain ⟨t, ht⟩ := exists_unlinkNode hb
  rw [rlFree_found h.on ht, rlFree_off h.off]
  obtain ⟨before, temp, after, hl, rfl⟩ := unlinkNode_eq_some ht
  have hnodes : v.mem.nodeBlocks = before.map MemNode.addr ++ temp.addr :: after.map MemNode.addr := by
    rw [MemState.nodeBlocks, (locate_eq_some hl).1]
    simp
  refine ⟨rfl, h.off, ?_⟩
  change w.mem.heap.release p =
    ((v.mem.heap.release temp.addr).release p).hide ((before ++ after).map MemNode.addr)
  rw [List.map_append, Heap.hide_release, Heap.hide_cut, ← hnodes, h.heap]
  rfl

theorem apply (h : Shadows v w) {c : Call} (hc : v.Enabled c) (ho : OwnBlocks v c) :
    (c.apply v.mem).1 = (c.apply w.mem).1 ∧
      (c.apply w.mem).2.rlMemoryTraceState = false ∧
      (c.apply w.mem).2.heap = (c.apply v.mem).2.clientHeap := by
  cases c with
  | init state mutexInit => exact ho.elim
  | deinit ans => exact ho.elim
  | malloc size site block node =>
    obtain ⟨hreply, hoff, hheap⟩ := h.rlMalloc size site hc ho
    exact ⟨congrArg Reply.pointer hreply, hoff, hheap⟩
  | calloc block count site zeroed node =>
    by_cases hz : block = 0#32 ∨ count = 0#32
    · simpa [Call.apply, rlCalloc, hz] using ⟨h.off, h.heap⟩
    · simp only [Call.apply, rlCalloc, hz, ↓reduceIte]
      obtain ⟨hreply, hoff, hheap⟩ := h.obtainBlock _ (block * count) site hc ho
      exact ⟨congrArg Reply.pointer hreply, hoff, hheap⟩
  | realloc ptr size site block node =>
    cases ptr with
    | none =>
      simp only [Call.apply, rlRealloc_null]
      obtain ⟨hreply, hoff, hheap⟩ := h.rlMalloc size site hc ho
      exact ⟨congrArg Reply.pointer hreply, hoff, hheap⟩
    | some p =>
      have hm : ∀ q ∈ block, v.mem.heap.Movable p q := fun q hq => (hc.2 q hq).1
      obtain ⟨hreply, hoff, hheap⟩ := h.rlRealloc size site node ho hm
      exact ⟨congrArg Reply.pointer hreply, hoff, hheap⟩
  | free ptr =>
    cases ptr with
    | none => exact ⟨rfl, h.off, h.heap⟩
    | some p =>
      obtain ⟨hreply, hoff, hheap⟩ := h.rlFree ho
      exact ⟨congrArg Reply.code hreply, hoff, hheap⟩
  | systemMalloc p bytes =>
    refine ⟨rfl, h.off, ?_⟩
    change w.mem.heap.allocate p bytes = (v.mem.heap.allocate p bytes).hide v.mem.nodeBlocks
    rw [Heap.hide_allocate _ _ (h.tracked.heap.not_mem hc), h.heap]
    rfl
  | systemFree p =>
    refine ⟨rfl, h.off, ?_⟩
    change w.mem.heap.release p = (v.mem.heap.release p).hide v.mem.nodeBlocks
    rw [Heap.hide_release, h.heap]
    rfl

theorem call (h : Shadows v w) {c : Call} (hc : tracedClient.enabled v c) :
    Shadows (v.call c) (w.call c) where
  tracked := h.tracked.call c hc.1
  allTraced := h.allTraced.observe hc.2.keepsRound v.mem
  off := (h.apply hc.1 hc.2).2.1
  heap := (h.apply hc.1 hc.2).2.2

theorem step (v w : World) (c : Call) (h : Shadows v w) (hc : tracedClient.enabled v c) :
    Shadows (tracedClient.next v c) (library.next w c) := h.call hc

theorem start (heap : Heap) (mutexInit : Bool) :
    Shadows ((World.start heap).call (.init true mutexInit)) (World.start heap) where
  tracked := (Tracked.start heap).call _ trivial
  allTraced := allTraced_init (fun _ => rfl) mutexInit
  off := rfl
  heap := (Heap.hide_nil heap).symm

end Shadows

def World.reply (w : World) (c : Call) : Reply := (c.apply w.mem).1

theorem tracing_transparent {heap : Heap} {cs : List Call} {mutexInit : Bool}
    (hv : tracedClient.Valid ((World.start heap).call (.init true mutexInit)) cs) :
    library.replies World.reply ((World.start heap).call (.init true mutexInit)) cs =
        library.replies World.reply (World.start heap) cs ∧
      ∀ pre, pre <+: cs →
        (library.exec ((World.start heap).call (.init true mutexInit)) pre).mem.clientHeap =
          (library.exec (World.start heap) pre).mem.heap := by
  constructor
  · rw [← Machine.restrict_replies library OwnBlocks]
    exact Machine.simulate_replies Shadows.step (fun v w c h hc => (h.apply hc.1 hc.2).1)
      (Shadows.start heap mutexInit) hv
  · intro pre hpre
    have hvpre := tracedClient.valid_of_prefix hpre hv
    have hend : Shadows (tracedClient.exec ((World.start heap).call (.init true mutexInit)) pre)
        (library.exec (World.start heap) pre) :=
      Machine.simulate Shadows.step (Shadows.start heap mutexInit) hvpre
    exact hend.heap.symm

theorem tracing_transparent_run :
    let w := World.start fun _ => none
    let cs : List Call := [.malloc 8#32 ⟨"a.c", "f", 1⟩ (some 100) (some 200),
      .realloc (some 100) 16#32 ⟨"a.c", "f", 2⟩ (some 300) none, .free none, .free (some 300)]
    library.replies World.reply (w.call (.init true true)) cs = library.replies World.reply w cs ∧
      ∀ pre, pre <+: cs →
        (library.exec (w.call (.init true true)) pre).mem.clientHeap = (library.exec w pre).mem.heap := by
  intro w cs
  have hv : tracedClient.Valid (w.call (.init true true)) cs := by decide
  exact tracing_transparent hv

end RlLibrary.Memory
