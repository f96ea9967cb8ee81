import RlLibrary.Foundation.Machine
import RlLibrary.Memory.Operations

/-!
What a client can know about its blocks: a ledger kept from calls and their replies alone.
The trace list is meant to be this ledger, restricted to the current tracing round.
-/

namespace RlLibrary.Memory

open Foundation

/-- `bytes` is the exact request. `traced` says that the block was last obtained in the tracing
round still open, `lost` that a failed `rl_realloc` released it behind the client's back. -/
structure Entry where
  bytes : ℕ
  site : CallSite
  traced : Bool
  lost : Bool
  deriving DecidableEq, Repr

structure Ledger where
  tracing : Bool
  handed : Addr → Option Entry

namespace Ledger

def empty : Ledger := ⟨false, fun _ => none⟩

def give (L : Ledger) (p : Addr) (bytes : ℕ) (site : CallSite) : Ledger :=
  { L with handed := Function.update L.handed p (some ⟨bytes, site, L.tracing, false⟩) }

def receive (L : Ledger) (r : Option Addr) (bytes : ℕ) (site : CallSite) : Ledger :=
  match r with
  | none => L
  | some p => L.give p bytes site

def take (L : Ledger) (p : Addr) : Ledger := { L with handed := Function.update L.handed p none }

def lose (L : Ledger) (p : Addr) : Ledger :=
  let e := (L.handed p).map (fun e => { e with lost := true })
  { L with handed := Function.update L.handed p e }

def close (L : Ledger) : Ledger :=
  ⟨false, fun a => (L.handed a).map (fun e => { e with traced := false })⟩

@[simp] theorem give_self (L : Ledger) (p : Addr) (bytes : ℕ) (site : CallSite) :
    (L.give p bytes site).handed p = some ⟨bytes, site, L.tracing, false⟩ := by simp [give]

@[simp] theorem give_other (L : Ledger) {p q : Addr} (bytes : ℕ) (site : CallSite) (hq : q ≠ p) :
    (L.give p bytes site).handed q = L.handed q := by simp [give, hq]

@[simp] theorem take_self (L : Ledger) (p : Addr) : (L.take p).handed p = none := by simp [take]

@[simp] theorem take_other (L : Ledger) {p q : Addr} (hq : q ≠ p) :
    (L.take p).handed q = L.handed q := by simp [take, hq]

@[simp] theorem lose_self (L : Ledger) (p : Addr) :
    (L.lose p).handed p = (L.handed p).map (fun e => { e with lost := true }) := by simp [lose]

@[simp] theorem lose_other (L : Ledger) {p q : Addr} (hq : q ≠ p) :
    (L.lose p).handed q = L.handed q := by simp [lose, hq]

def observe (L : Ledger) : Call → Reply → Ledger
  | .init true _, _ => { L with tracing := true }
  | .deinit _, .code c => if c = RL_SUCCESS then L.close else L
  | .malloc size site _ _, .pointer r => L.receive r size.toNat site
  | .calloc block count site _ _, .pointer r => L.receive r (block.toNat * count.toNat) site
  | .realloc none size site _ _, .pointer r => L.receive r size.toNat site
  | .realloc (some p) size site _ _, .pointer (some q) => (L.take p).give q size.toNat site
  -- NULL although the underlying realloc went through
  | .realloc (some p) size _ (some _) _, .pointer none => if size = 0#32 then L else L.lose p
  | .free (some p), .code c => if c = RL_SUCCESS then L.take p else L
  | _, _ => L

structure All (tracing : Bool) (P : Entry → Prop) (L : Ledger) : Prop where
  tracing : L.tracing = tracing
  entries : ∀ p e, L.handed p = some e → P e

namespace All

variable {tracing : Bool} {P : Entry → Prop} {L : Ledger} {bytes : ℕ} {site : CallSite}

theorem give (h : L.All tracing P) (p : Addr) (hnew : P ⟨bytes, site, tracing, false⟩) :
    (L.give p bytes site).All tracing P where
  tracing := h.tracing
  entries q e he := by
    by_cases hq : q = p
    · subst hq
      rw [give_self, h.tracing, Option.some_inj] at he
      rw [← he]
      exact hnew
    · rw [give_other _ _ _ hq] at he
      exact h.entries q e he

theorem receive (h : L.All tracing P) {r : Option Addr}
    (hnew : r ≠ none → P ⟨bytes, site, tracing, false⟩) : (L.receive r bytes site).All tracing P := by
  cases r with
  | none => exact h
  | some p => exact h.give p (hnew (by simp))

theorem take (h : L.All tracing P) (p : Addr) : (L.take p).All tracing P where
  tracing := h.tracing
  entries q e he := by
    by_cases hq : q = p
    · subst hq
      simp at he
    · rw [take_other _ hq] at he
      exact h.entries q e he

theorem lose (h : L.All tracing P) (hlose : ∀ e, P e → P { e with lost := true }) (p : Addr) :
    (L.lose p).All tracing P where
  tracing := h.tracing
  entries q e he := by
    by_cases hq : q = p
    · subst hq
      simp only [lose_self, Option.map_eq_some_iff] at he
      obtain ⟨e', he', rfl⟩ := he
      exact hlose e' (h.entries q e' he')
    · rw [lose_other _ hq] at he
      exact h.entries q e he

theorem observe (h : L.All tracing P) (hlose : ∀ e, P e → P { e with lost := true }) {c : Call}
    (hround : c.KeepsRound) {s : MemState} (hnew : ∀ bytes site, c.request = some (bytes, site) →
      (c.apply s).1 ≠ .pointer none → P ⟨bytes, site, tracing, false⟩) :
    (L.observe c (c.apply s).1).All tracing P := by
  have hreceive {bytes : ℕ} {site : CallSite} {r : Option Addr}
      (hr : c.request = some (bytes, site)) (happly : (c.apply s).1 = .pointer r) :
      (L.receive r bytes site).All tracing P :=
    h.receive fun hsome => hnew bytes site hr (by simpa [happly] using hsome)
  cases c with
  | init state mutexInit => exact hround.elim
  | deinit ans => exact hround.elim
  | malloc size site block node => exact hreceive rfl rfl
  | calloc block count site zeroed node => exact hreceive rfl rfl
  | realloc ptr size site block node =>
    cases ptr with
    | none => exact hreceive rfl rfl
    | some p =>
      simp only [Call.apply] at hnew ⊢
      cases hr : (rlRealloc (some p) size site block node s).1 with
      | some q => exact (h.take p).give q (hnew _ _ rfl (by simp [hr]))
      | none =>
        cases block with
        | none => exact h
        | some q =>
          by_cases hz : size = 0#32
          · simpa [Ledger.observe, hz] using h
          · simpa [Ledger.observe, hz] using h.lose hlose p
  | free ptr =>
    cases ptr with
    | none => exact h
    | some p =>
      simp only [Call.apply, Ledger.observe]
      split_ifs
      · exact h.take p
      · exact h
  | systemMalloc p bytes => exact h
  | systemFree p => exact h

end All

def Holds (L : Ledger) (p : Addr) : Prop := ∃ e, L.handed p = some e ∧ e.lost = false

instance (L : Ledger) (p : Addr) : Decidable (L.Holds p) :=
  decidable_of_iff (((L.handed p).any (fun e => !e.lost)) = true) (by
    cases h : L.handed p <;> simp [Holds, h])

end Ledger

structure World where
  mem : MemState
  ledger : Ledger

namespace World

def start (heap : Heap) : World := ⟨MemState.start heap, Ledger.empty⟩

def ClientBlock (w : World) (p : Addr) : Prop := w.mem.heap p ≠ none ∧ p ∉ w.mem.nodeBlocks

instance (w : World) (p : Addr) : Decidable (w.ClientBlock p) :=
  inferInstanceAs (Decidable (_ ∧ _))

def Fresh (h : Heap) (bytes : ℕ) (block node : Option Addr) : Prop :=
  ∀ p ∈ block, h p = none ∧ ∀ a ∈ node, h.allocate p bytes a = none

instance (h : Heap) (bytes : ℕ) (block node : Option Addr) : Decidable (Fresh h bytes block node) :=
  inferInstanceAs (Decidable (∀ p ∈ block, _ ∧ ∀ a ∈ node, _))

/-- The allocator returns only addresses that are not live; the client passes to the C
allocator only what it may. While tracing is on, `rl_free` may be given any pointer. -/
def Enabled (w : World) : Call → Prop
  | .init _ _ => True
  | .deinit _ => True
  | .malloc size _ block node => Fresh w.mem.heap size.toNat block node
  | .calloc block count _ zeroed node => Fresh w.mem.heap (block.toNat * count.toNat) zeroed node
  | .realloc none size _ block node => Fresh w.mem.heap size.toNat block node
  | .realloc (some p) size _ block node => w.ClientBlock p ∧ ∀ q ∈ block,
      w.mem.heap.Movable p q ∧ ∀ a ∈ node, w.mem.heap.resize p q size.toNat a = none
  | .free none => True
  | .free (some p) => w.mem.rlMemoryTraceState = false → w.ClientBlock p
  | .systemMalloc p _ => w.mem.heap p = none
  | .systemFree p => w.ClientBlock p ∧ ¬ w.ledger.Holds p

instance (w : World) (c : Call) : Decidable (w.Enabled c) :=
  match c with
  | .init _ _ => .isTrue trivial
  | .deinit _ => .isTrue trivial
  | .malloc .. => inferInstanceAs (Decidable (Fresh ..))
  | .calloc .. => inferInstanceAs (Decidable (Fresh ..))
  | .realloc none .. => inferInstanceAs (Decidable (Fresh ..))
  | .realloc (some _) _ _ block node =>
    inferInstanceAs (Decidable (_ ∧ ∀ q ∈ block, _ ∧ ∀ a ∈ node, _))
  | .free none => .isTrue trivial
  | .free (some _) => inferInstanceAs (Decidable (_ → _))
  | .systemMalloc .. => inferInstanceAs (Decidable (_ = none))
  | .systemFree _ => inferInstanceAs (Decidable (_ ∧ ¬ _))

def call (w : World) (c : Call) : World :=
  ⟨(c.apply w.mem).2, w.ledger.observe c (c.apply w.mem).1⟩

end World

def library : Machine World Call := ⟨World.Enabled, World.call⟩

instance (w : World) (c : Call) : Decidable (library.enabled w c) :=
  inferInstanceAs (Decidable (w.Enabled c))

def Reached (w : World) : Prop := ∃ heap, library.Reachable (World.start heap) w

theorem reached_exec {heap : Heap} {cs : List Call}
    (hv : library.Valid (World.start heap) cs) : Reached (library.exec (World.start heap) cs) :=
  ⟨heap, cs, hv, rfl⟩

end RlLibrary.Memory
