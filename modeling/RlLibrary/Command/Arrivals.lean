import Mathlib.Tactic.IntervalCases
import RlLibrary.Command.Restoring
import RlLibrary.Foundation.Delivery

namespace RlLibrary.Command

open Foundation Str

def enterCalls : List SignalCall :=
  [.sigaction SIGINT ignored, .sigaction SIGQUIT ignored, .block SIGCHLD, .signal SIGCHLD .default]

def leaveCalls (saved : SignalState) : List SignalCall :=
  [.setMask saved.blocked, .signal SIGCHLD (saved.disposition SIGCHLD).handler,
    .sigaction SIGINT (saved.disposition SIGINT), .sigaction SIGQUIT (saved.disposition SIGQUIT)]

def signalCalls (saved : SignalState) : List SignalCall := enterCalls ++ leaveCalls saved

def childCalls (saved : SignalState) : List SignalCall :=
  [.sigaction SIGINT (saved.disposition SIGINT), .sigaction SIGQUIT (saved.disposition SIGQUIT),
    .setMask saved.blocked]

/-- The numbers of calls made between which a signal is kept away. -/
def keptAway : List (Signal × ℕ × ℕ) := [(SIGINT, 1, 6), (SIGQUIT, 2, 7), (SIGCHLD, 3, 5)]

def callState (calls : List SignalCall) (s : SignalState) : SignalState :=
  calls.foldl (fun s c => c.apply s) s

section Calls

variable (s : SignalState)

theorem enterCalls_state : callState enterCalls s = guarded s := rfl

theorem signalCalls_state (status : BitVec 32) :
    callState (signalCalls s) s = (restore .allSucceed s status (guarded s)).2 := rfl

theorem keptAway_holds {sig : Signal} {first last k : ℕ} (hsig : (sig, first, last) ∈ keptAway)
    (hfirst : first ≤ k) (hlast : k ≤ last) :
    (callState ((signalCalls s).take k) s).Holds sig := by
  simp only [keptAway, List.mem_cons, List.not_mem_nil, or_false, Prod.mk.injEq] at hsig
  rcases hsig with ⟨rfl, rfl, rfl⟩ | ⟨rfl, rfl, rfl⟩ | ⟨rfl, rfl, rfl⟩
  · refine Or.inl ?_
    interval_cases k <;>
      simp [signalCalls, enterCalls, leaveCalls, callState, SignalCall.apply, Handler.quiet, ignored,
        int_ne_quit, int_ne_chld]
  · refine Or.inl ?_
    interval_cases k <;>
      simp [signalCalls, enterCalls, leaveCalls, callState, SignalCall.apply, Handler.quiet, ignored,
        int_ne_quit.symm, quit_ne_chld]
  · interval_cases k
    · refine Or.inr ?_
      simp [signalCalls, enterCalls, leaveCalls, callState, SignalCall.apply]
    · exact Or.inl rfl
    · exact Or.inl rfl

theorem signalCalls_blocked {k : ℕ} (hrestored : 5 ≤ k) (hk : k ≤ 8) :
    (callState ((signalCalls s).take k) s).blocked = s.blocked := by
  interval_cases k <;> rfl

theorem childCalls_disposition (sig : Signal) :
    (callState (childCalls s) (guarded s)).disposition sig =
      if sig = SIGCHLD then .bsd SIGCHLD .default else s.disposition sig := by
  by_cases hchld : sig = SIGCHLD
  · subst hchld
    simp [childCalls, callState, SignalCall.apply, guarded_chld, int_ne_chld.symm, quit_ne_chld.symm]
  rw [if_neg hchld]
  by_cases hquit : sig = SIGQUIT
  · subst hquit
    simp [childCalls, callState, SignalCall.apply]
  by_cases hint : sig = SIGINT
  · subst hint
    simp [childCalls, callState, SignalCall.apply, int_ne_quit]
  · simp [childCalls, callState, SignalCall.apply, guarded, hchld, hquit, hint]

theorem childCalls_blocked : (callState (childCalls s) (guarded s)).blocked = s.blocked := rfl

theorem childCalls_holds {sig : Signal} {last k : ℕ}
    (hsig : (sig, last) ∈ [(SIGINT, 0), (SIGQUIT, 1), (SIGCHLD, 3)]) (hlast : k ≤ last) :
    (callState ((childCalls s).take k) (guarded s)).Holds sig := by
  have hint := guarded_int s
  have hquit := guarded_quit s
  have hchld := guarded_chld s
  simp only [List.mem_cons, List.not_mem_nil, or_false, Prod.mk.injEq] at hsig
  rcases hsig with ⟨rfl, rfl⟩ | ⟨rfl, rfl⟩ | ⟨rfl, rfl⟩
  · refine Or.inl ?_
    interval_cases k
    simp [callState, hint, Handler.quiet, ignored]
  · refine Or.inl ?_
    interval_cases k <;>
      simp [childCalls, callState, SignalCall.apply, hquit, Handler.quiet, ignored, int_ne_quit.symm]
  · refine Or.inl ?_
    have hdefault : (Disposition.bsd SIGCHLD .default).handler.quiet SIGCHLD = true := by decide
    interval_cases k <;>
      simp [childCalls, callState, SignalCall.apply, hchld, hdefault, int_ne_chld.symm, quit_ne_chld.symm]

end Calls

section Arrivals

variable {p : Process} {front window : List SignalEvent}

theorem effectsOf_window {calls : List SignalCall} {sig : Signal} {first last : ℕ}
    (hcalls : callsOf (front ++ window) <+: calls)
    (hholds : ∀ k, first ≤ k → k ≤ last → (callState (calls.take k) p.signals).Holds sig)
    (hfirst : first ≤ (callsOf front).length) (hlast : (callsOf (front ++ window)).length ≤ last) :
    (signalMachine.exec p (front ++ window)).effectsOf sig = (signalMachine.exec p front).effectsOf sig := by
  rw [Machine.exec_append]
  refine exec_effectsOf fun part _ hpart => ?_
  obtain ⟨rest, rfl⟩ := hpart
  rw [exec_signals, ← List.foldl_append, ← callsOf_append]
  rw [callsOf_append, callsOf_append, ← List.append_assoc, ← callsOf_append] at hcalls hlast
  have hpre : callsOf (front ++ part) <+: calls := (List.prefix_append _ _).trans hcalls
  have hlength : (callsOf front).length ≤ (callsOf (front ++ part)).length := by
    rw [callsOf_append, List.length_append]
    exact Nat.le_add_right _ _
  rw [List.length_append] at hlast
  rw [List.prefix_iff_eq_take.mp hpre]
  exact hholds _ (hfirst.trans hlength) (by omega)

/-- However signals arrive between the calls of `rl_system_100ms_ex`, while they are kept away they
neither end the caller nor run one of its handlers; and what arrived before the mask is back stays
pending only where the caller blocks it. -/
theorem signals_kept_away (hpending : p.pending ⊆ p.signals.blocked)
    (hcalls : callsOf (front ++ window) <+: signalCalls p.signals) :
    (∀ sig first last, (sig, first, last) ∈ keptAway → first ≤ (callsOf front).length →
      (callsOf (front ++ window)).length ≤ last →
        (signalMachine.exec p (front ++ window)).effectsOf sig =
          (signalMachine.exec p front).effectsOf sig) ∧
    (5 ≤ (callsOf (front ++ window)).length →
      (signalMachine.exec p (front ++ window)).pending ⊆ p.signals.blocked) := by
  refine ⟨fun sig first last hsig hfirst hlast => ?_, fun hrestored => ?_⟩
  · exact effectsOf_window hcalls (fun k => keptAway_holds p.signals hsig) hfirst hlast
  · have hmask := exec_pending hpending (front ++ window)
    have hfew := hcalls.length_le
    rw [exec_signals, List.prefix_iff_eq_take.mp hcalls] at hmask
    rwa [← signalCalls_blocked p.signals hrestored hfew]

theorem exec_signals_returned {is : List SignalEvent} (hcalls : callsOf is = signalCalls p.signals)
    {cmdStr : Option CString} (hcmd : rlStrIsempty cmdStr = false) {timeoutCount tryCount : ℤ}
    {env : ℕ → AttemptEnv} {fuel : ℕ} {code : ℤ}
    (hcode : (rlSystem100msEx cmdStr timeoutCount tryCount .allSucceed env fuel p.signals).outcome =
      .returned code) :
    (signalMachine.exec p is).signals =
      (rlSystem100msEx cmdStr timeoutCount tryCount .allSucceed env fuel p.signals).signals := by
  have henter : Enters cmdStr .allSucceed := ⟨hcmd, rfl, rfl, rfl⟩
  rw [rlSystem100msEx_enters henter] at hcode ⊢
  obtain ⟨status, hstatus⟩ := returned_done hcode
  rw [exec_signals, hcalls]
  simp only [hstatus, leave]
  exact signalCalls_state p.signals status

/-- What `execl` keeps: functions of the old image cannot handle a signal in the new one. -/
def execSignals (s : SignalState) : SignalState :=
  { s with disposition := fun sig =>
      match (s.disposition sig).handler with
      | .function _ => ⟨.default, 0, ∅⟩
      | _ => s.disposition sig }

theorem execSignals_ignore (s : SignalState) (sig : Signal) :
    ((execSignals s).disposition sig).handler = .ignore ↔ (s.disposition sig).handler = .ignore := by
  simp only [execSignals]
  split <;> simp [*]

theorem execSignals_function (s : SignalState) (sig : Signal) (entry : ℕ) :
    ((execSignals s).disposition sig).handler ≠ .function entry := by
  simp only [execSignals]
  split
  · simp
  · rename_i hother
    exact hother entry

/-- Whatever arrives, every attempt starts the shell with the signals ignored and blocked that the
caller has ignored and blocked, SIGCHLD apart, which the shell never finds ignored; and before a child
has put a disposition back, the signal does not end it. -/
theorem shell_signals (p : Process) {is js : List SignalEvent} (hparent : callsOf is = enterCalls)
    (hchild : callsOf js = childCalls p.signals) :
    let child : Process := ⟨(signalMachine.exec p is).signals, ∅, []⟩
    let shell := execSignals (signalMachine.exec child js).signals
    (∀ sig, (shell.disposition sig).handler = .ignore ↔
      sig ≠ SIGCHLD ∧ (p.signals.disposition sig).handler = .ignore) ∧
    (∀ sig entry, (shell.disposition sig).handler ≠ .function entry) ∧
    shell.blocked = p.signals.blocked ∧
    ∀ sig last, (sig, last) ∈ [(SIGINT, 0), (SIGQUIT, 1), (SIGCHLD, 3)] →
      ∀ front, front <+: js → (callsOf front).length ≤ last →
        (signalMachine.exec child front).effectsOf sig = [] := by
  intro child shell
  have hstart : child.signals = guarded p.signals := by
    change (signalMachine.exec p is).signals = _
    rw [exec_signals, hparent]
    exact enterCalls_state p.signals
  have hsignals : (signalMachine.exec child js).signals = callState (childCalls p.signals) (guarded p.signals) := by
    rw [exec_signals, hchild, hstart]
    rfl
  refine ⟨fun sig => ?_, fun sig => execSignals_function _ sig, ?_,
    fun sig last hsig front hfront hlast => ?_⟩
  · rw [execSignals_ignore, hsignals, childCalls_disposition]
    by_cases hchld : sig = SIGCHLD
    · simp [hchld, Disposition.bsd]
    · simp [hchld]
  · change (signalMachine.exec child js).signals.blocked = _
    rw [hsignals]
    exact childCalls_blocked p.signals
  · obtain ⟨rest, rfl⟩ := hfront
    have hcalls : callsOf ([] ++ front) <+: childCalls p.signals := by
      rw [← hchild, callsOf_append front rest]
      exact List.prefix_append _ _
    have hholds (k : ℕ) (_ : 0 ≤ k) (hk : k ≤ last) :
        (callState ((childCalls p.signals).take k) child.signals).Holds sig := by
      rw [hstart]
      exact childCalls_holds p.signals hsig hk
    exact effectsOf_window hcalls hholds (Nat.zero_le _) hlast

def plainProcess : Process := ⟨plainSignals, ∅, []⟩

theorem signals_kept_away_interrupt :
    let front : List SignalEvent := [.call (.sigaction SIGINT ignored)]
    let window : List SignalEvent := [.arrives SIGINT, .call (.sigaction SIGQUIT ignored)]
    (∀ sig first last, (sig, first, last) ∈ keptAway → first ≤ (callsOf front).length →
      (callsOf (front ++ window)).length ≤ last →
        (signalMachine.exec plainProcess (front ++ window)).effectsOf sig =
          (signalMachine.exec plainProcess front).effectsOf sig) ∧
    (5 ≤ (callsOf (front ++ window)).length →
      (signalMachine.exec plainProcess (front ++ window)).pending ⊆ plainProcess.signals.blocked) :=
  signals_kept_away (Finset.empty_subset _) ⟨_, rfl⟩

theorem shell_signals_interrupt :
    let is := enterCalls.map SignalEvent.call
    let js := SignalEvent.arrives SIGINT :: (childCalls plainSignals).map SignalEvent.call
    let child : Process := ⟨(signalMachine.exec plainProcess is).signals, ∅, []⟩
    let shell := execSignals (signalMachine.exec child js).signals
    (∀ sig, (shell.disposition sig).handler = .ignore ↔
      sig ≠ SIGCHLD ∧ (plainProcess.signals.disposition sig).handler = .ignore) ∧
    (∀ sig entry, (shell.disposition sig).handler ≠ .function entry) ∧
    shell.blocked = plainProcess.signals.blocked ∧
    ∀ sig last, (sig, last) ∈ [(SIGINT, 0), (SIGQUIT, 1), (SIGCHLD, 3)] →
      ∀ front, front <+: js → (callsOf front).length ≤ last →
        (signalMachine.exec child front).effectsOf sig = [] :=
  shell_signals plainProcess rfl rfl

end Arrivals

end RlLibrary.Command
