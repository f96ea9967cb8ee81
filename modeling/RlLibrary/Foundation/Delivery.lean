import Mathlib.Data.Finset.Filter
import RlLibrary.Foundation.Machine
import RlLibrary.Foundation.Signals

namespace RlLibrary.Foundation

inductive SignalCall where
  | sigaction (sig : Signal) (act : Disposition)
  | signal (sig : Signal) (handler : Handler)
  | block (sig : Signal)
  | setMask (mask : Finset Signal)

namespace SignalCall

def apply : SignalCall → SignalState → SignalState
  | sigaction sig act, s => s.sigaction true sig act
  | signal sig handler, s => s.signal sig handler
  | block sig, s => s.block true sig
  | setMask mask, s => s.setMask true mask

def sets : SignalCall → Option Signal
  | sigaction sig _ => some sig
  | signal sig _ => some sig
  | _ => none

end SignalCall

namespace Signal

def ignoredByDefault (sig : Signal) : Bool := sig.number ∈ [17, 18, 23, 28]

def all : List Signal := (List.finRange 64).map fun i => ⟨i.val + 1, by omega, by omega⟩

end Signal

def Handler.quiet (sig : Signal) : Handler → Bool
  | .default => sig.ignoredByDefault
  | .ignore => true
  | .function _ => false

/-- `effects` lists what was delivered and not ignored, with the handler that it met. -/
structure Process where
  signals : SignalState
  pending : Finset Signal
  effects : List (Signal × Handler)

namespace Process

def deliver (p : Process) (sig : Signal) : Process :=
  let handler := (p.signals.disposition sig).handler
  if handler.quiet sig = true then p else { p with effects := p.effects ++ [(sig, handler)] }

/-- A blocked signal stays pending, even one that is ignored. -/
def arrive (p : Process) (sig : Signal) : Process :=
  if sig ∈ p.signals.blocked then { p with pending := insert sig p.pending } else p.deliver sig

/-- To ignore a signal is to drop it where it is pending. -/
def change (p : Process) (c : SignalCall) : Process :=
  let signals := c.apply p.signals
  let dropped (sig : Signal) : Prop :=
    c.sets = some sig ∧ (signals.disposition sig).handler.quiet sig = true
  ⟨signals, p.pending.filter fun sig => ¬ dropped sig, p.effects⟩

def release (p : Process) : Process :=
  (Signal.all.filter fun sig => sig ∈ p.pending ∧ sig ∉ p.signals.blocked).foldl deliver
    { p with pending := p.pending.filter fun sig => sig ∈ p.signals.blocked }

def perform (p : Process) (c : SignalCall) : Process := (p.change c).release

def effectsOf (p : Process) (sig : Signal) : List (Signal × Handler) :=
  p.effects.filter fun e => e.1 = sig

end Process

inductive SignalEvent where
  | call (c : SignalCall)
  | arrives (sig : Signal)

def callsOf (is : List SignalEvent) : List SignalCall :=
  is.filterMap fun
    | .call c => some c
    | .arrives _ => none

def signalMachine : Machine Process SignalEvent where
  enabled _ _ := True
  next p
    | .call c => p.perform c
    | .arrives sig => p.arrive sig

def SignalState.Holds (s : SignalState) (sig : Signal) : Prop :=
  (s.disposition sig).handler.quiet sig = true ∨ sig ∈ s.blocked

section Delivery

variable {p : Process} {sig : Signal} {is : List SignalEvent}

theorem deliver_signals (p : Process) (sig : Signal) : (p.deliver sig).signals = p.signals := by
  rw [Process.deliver]
  split_ifs <;> rfl

theorem deliver_pending (p : Process) (sig : Signal) : (p.deliver sig).pending = p.pending := by
  rw [Process.deliver]
  split_ifs <;> rfl

theorem deliver_effectsOf {sig' : Signal}
    (h : sig' = sig → (p.signals.disposition sig).handler.quiet sig = true) :
    (p.deliver sig').effectsOf sig = p.effectsOf sig := by
  rw [Process.deliver]
  split_ifs with hquiet
  · rfl
  · have hother : sig' ≠ sig := by
      rintro rfl
      exact hquiet (h rfl)
    simp [Process.effectsOf, hother]

theorem deliverAll_signals (sigs : List Signal) (p : Process) :
    (sigs.foldl Process.deliver p).signals = p.signals ∧
      (sigs.foldl Process.deliver p).pending = p.pending := by
  induction sigs generalizing p with
  | nil => exact ⟨rfl, rfl⟩
  | cons sig sigs ih =>
    obtain ⟨hsignals, hpending⟩ := ih (p.deliver sig)
    exact ⟨hsignals.trans (deliver_signals p sig), hpending.trans (deliver_pending p sig)⟩

theorem deliverAll_effectsOf {sigs : List Signal} {p : Process}
    (h : sig ∈ sigs → (p.signals.disposition sig).handler.quiet sig = true) :
    (sigs.foldl Process.deliver p).effectsOf sig = p.effectsOf sig := by
  induction sigs generalizing p with
  | nil => rfl
  | cons sig' sigs ih =>
    have hhead : (p.deliver sig').effectsOf sig = p.effectsOf sig :=
      deliver_effectsOf fun he => h (he ▸ List.mem_cons_self)
    have htail : sig ∈ sigs → (((p.deliver sig').signals).disposition sig).handler.quiet sig = true := by
      intro hmem
      rw [deliver_signals]
      exact h (List.mem_cons_of_mem sig' hmem)
    exact (ih htail).trans hhead

theorem release_signals (p : Process) : p.release.signals = p.signals :=
  (deliverAll_signals _ _).1

theorem release_pending (p : Process) : p.release.pending ⊆ p.signals.blocked := by
  rw [Process.release, (deliverAll_signals _ _).2]
  exact fun sig hsig => (Finset.mem_filter.mp hsig).2

theorem release_effectsOf (h : p.signals.Holds sig) : p.release.effectsOf sig = p.effectsOf sig := by
  refine deliverAll_effectsOf fun hmem => h.resolve_right ?_
  exact (of_decide_eq_true (List.mem_filter.mp hmem).2).2

theorem next_signals (p : Process) (e : SignalEvent) :
    (signalMachine.next p e).signals = (callsOf [e]).foldl (fun s c => c.apply s) p.signals := by
  cases e with
  | call c => exact release_signals (p.change c)
  | arrives sig =>
    change (p.arrive sig).signals = p.signals
    rw [Process.arrive]
    split_ifs
    · rfl
    · exact deliver_signals p sig

theorem callsOf_append (is js : List SignalEvent) : callsOf (is ++ js) = callsOf is ++ callsOf js :=
  List.filterMap_append

theorem exec_signals (p : Process) (is : List SignalEvent) :
    (signalMachine.exec p is).signals = (callsOf is).foldl (fun s c => c.apply s) p.signals := by
  induction is generalizing p with
  | nil => rfl
  | cons e is ih =>
    have hsplit : callsOf (e :: is) = callsOf [e] ++ callsOf is := callsOf_append [e] is
    rw [Machine.exec_cons, ih, next_signals, hsplit, List.foldl_append]

theorem next_pending (h : p.pending ⊆ p.signals.blocked) (e : SignalEvent) :
    (signalMachine.next p e).pending ⊆ (signalMachine.next p e).signals.blocked := by
  cases e with
  | call c =>
    change (p.change c).release.pending ⊆ (p.change c).release.signals.blocked
    rw [release_signals]
    exact release_pending (p.change c)
  | arrives sig =>
    change (p.arrive sig).pending ⊆ (p.arrive sig).signals.blocked
    rw [Process.arrive]
    split_ifs with hblocked
    · exact Finset.insert_subset hblocked h
    · rw [deliver_signals, deliver_pending]
      exact h

theorem exec_pending (h : p.pending ⊆ p.signals.blocked) (is : List SignalEvent) :
    (signalMachine.exec p is).pending ⊆ (signalMachine.exec p is).signals.blocked := by
  induction is generalizing p with
  | nil => exact h
  | cons e is ih => exact ih (next_pending h e)

theorem next_effectsOf {e : SignalEvent} (h : (signalMachine.next p e).signals.Holds sig) :
    (signalMachine.next p e).effectsOf sig = p.effectsOf sig := by
  rw [next_signals] at h
  cases e with
  | call c => exact release_effectsOf h
  | arrives sig' =>
    change (p.arrive sig').effectsOf sig = p.effectsOf sig
    rw [Process.arrive]
    split_ifs with hblocked
    · rfl
    · refine deliver_effectsOf fun he => h.resolve_right ?_
      rwa [← he]

theorem exec_effectsOf (h : ∀ front, front ≠ [] → front <+: is →
      ((callsOf front).foldl (fun s c => c.apply s) p.signals).Holds sig) :
    (signalMachine.exec p is).effectsOf sig = p.effectsOf sig := by
  induction is generalizing p with
  | nil => rfl
  | cons e is ih =>
    have hhead := h [e] (List.cons_ne_nil e []) (List.prefix_append [e] is)
    rw [← next_signals] at hhead
    rw [Machine.exec_cons, ih fun front hne hfront => ?_, next_effectsOf hhead]
    have hwhole := h (e :: front) (List.cons_ne_nil e front) (List.prefix_cons_inj e |>.mpr hfront)
    have hsplit : callsOf (e :: front) = callsOf [e] ++ callsOf front := callsOf_append [e] front
    rwa [hsplit, List.foldl_append, ← next_signals] at hwhole

end Delivery

end RlLibrary.Foundation
