import RlLibrary.Memory.Preservation

namespace RlLibrary.Memory

open Foundation MemState

structure Ledger.AllTraced (L : Ledger) : Prop where
  tracing : L.tracing = true
  traced : ∀ p e, L.handed p = some e → e.traced = true

namespace Ledger.AllTraced

variable {L : Ledger}

theorem observe (h : L.AllTraced) {c : Call} (hc : c.KeepsRound) (s : MemState) :
    (L.observe c (c.apply s).1).AllTraced := by
  have hall : L.All true (fun e => e.traced = true) := ⟨h.tracing, h.traced⟩
  obtain ⟨htracing, htraced⟩ := hall.observe (fun _ he => he) hc fun _ _ _ _ => rfl
  exact ⟨htracing, htraced⟩

theorem exec {w : World} (h : w.ledger.AllTraced) {cs : List Call}
    (hcs : ∀ c ∈ cs, c.KeepsRound) : (library.exec w cs).ledger.AllTraced := by
  induction cs generalizing w with
  | nil => exact h
  | cons c cs ih =>
    apply ih
    · exact h.observe (hcs c List.mem_cons_self) w.mem
    · exact fun c hc => hcs c (List.mem_cons_of_mem _ hc)

end Ledger.AllTraced

def TraceListExact (w : World) : Prop :=
  w.mem.blocks.Nodup ∧ (∀ p, p ∈ w.mem.blocks ↔ (w.ledger.handed p).isSome = true) ∧
    ∀ n ∈ w.mem.gMemHeader, ∀ e, w.ledger.handed n.ptr = some e → n.toCallSite = e.site

theorem Tracked.listExact {w : World} (h : Tracked w) (ha : w.ledger.AllTraced) :
    TraceListExact w := by
  refine ⟨h.list.nodup, ?_, ?_⟩
  · intro p
    rw [MemState.blocks, h.list.mem_iff, Option.isSome_iff_exists]
    constructor
    · rintro ⟨e, he, _⟩
      exact ⟨e, he⟩
    · rintro ⟨e, he⟩
      exact ⟨e, he, ha.traced p e he⟩
  · intro n hn e he
    obtain ⟨e', he', _, hsite, _⟩ := h.list.sound n hn
    rw [he] at he'
    cases he'
    exact hsite.symm

theorem allTraced_init {w : World} (hempty : ∀ p, w.ledger.handed p = none) (mutexInit : Bool) :
    (w.call (.init true mutexInit)).ledger.AllTraced where
  tracing := rfl
  traced p e he := by
    have hp : w.ledger.handed p = some e := he
    rw [hempty p] at hp
    cases hp

theorem trace_list_exact {w : World} {cs : List Call} {mutexInit : Bool} (hw : Reached w)
    (hempty : ∀ p, w.ledger.handed p = none) (hv : library.Valid (w.call (.init true mutexInit)) cs)
    (hcs : ∀ c ∈ cs, c.KeepsRound) :
    TraceListExact (library.exec (w.call (.init true mutexInit)) cs) := by
  have hinit : Tracked (w.call (.init true mutexInit)) := (Tracked.of_reached hw).call _ trivial
  have htracked : Tracked (library.exec (w.call (.init true mutexInit)) cs) :=
    Machine.exec_invariant (fun w c hw hc => hw.call c hc) hinit hv
  exact htracked.listExact ((allTraced_init hempty mutexInit).exec hcs)

theorem trace_list_exact_run : TraceListExact
    (library.exec ((World.start fun _ => none).call (.init true true))
      [.malloc 8#32 ⟨"a.c", "f", 1⟩ (some 100) (some 200),
       .calloc 2#32 4#32 ⟨"a.c", "f", 2⟩ (some 300) (some 400),
       .realloc (some 100) 16#32 ⟨"a.c", "g", 3⟩ (some 500) none, .free (some 300),
       .malloc 8#32 ⟨"b.c", "h", 4⟩ (some 100) (some 300)]) :=
  trace_list_exact ⟨_, Machine.Reachable.refl ..⟩ (fun _ => rfl) (by decide) (by decide)

end RlLibrary.Memory
