import RlLibrary.Command.Children

namespace RlLibrary.Command

open Foundation Str

def SignalAnswers.intLost (ans : SignalAnswers) : Bool :=
  ans.ignoreInt && ans.ignoreQuit && ans.block && ans.restoreMask && !ans.restoreInt

def SignalAnswers.quitLost (ans : SignalAnswers) : Bool :=
  ans.ignoreInt && ans.ignoreQuit && ans.block && ans.restoreMask && ans.restoreInt &&
    !ans.restoreQuit

structure Restored (ans : SignalAnswers) (before after : SignalState) : Prop where
  int : ans.intLost = false → after.disposition SIGINT = before.disposition SIGINT
  quit : ans.quitLost = false → after.disposition SIGQUIT = before.disposition SIGQUIT
  chld : after.disposition SIGCHLD = before.disposition SIGCHLD
  blocked : after.blocked = before.blocked

def RestoresFrom (ans : SignalAnswers) (s : SignalState) : Prop :=
  if ans.ignoreInt = false then True
  else if ans.ignoreQuit = false then s.disposition SIGINT = ignored
  else if ans.block = false then
    s.disposition SIGINT = ignored ∧ s.disposition SIGQUIT = ignored
  else if ans.restoreMask = false then
    s.disposition SIGINT = ignored ∧ s.disposition SIGQUIT = ignored ∧
      s.disposition SIGCHLD = .bsd SIGCHLD .default ∧ SIGCHLD ∈ s.blocked
  else if ans.restoreInt = false then
    s.disposition SIGQUIT = ignored ∧
      s.disposition SIGCHLD = .bsd SIGCHLD (s.disposition SIGCHLD).handler
  else s.disposition SIGCHLD = .bsd SIGCHLD (s.disposition SIGCHLD).handler

section States

theorem int_ne_quit : SIGINT ≠ SIGQUIT := by decide

theorem int_ne_chld : SIGINT ≠ SIGCHLD := by decide

theorem quit_ne_chld : SIGQUIT ≠ SIGCHLD := by decide

variable (s : SignalState)

theorem guarded_int : (guarded s).disposition SIGINT = ignored := by
  rw [guarded, SignalState.signal_other _ _ int_ne_chld, SignalState.block_disposition,
    SignalState.sigaction_other _ _ _ int_ne_quit, SignalState.sigaction_self]

theorem guarded_quit : (guarded s).disposition SIGQUIT = ignored := by
  rw [guarded, SignalState.signal_other _ _ quit_ne_chld, SignalState.block_disposition,
    SignalState.sigaction_self]

theorem guarded_chld : (guarded s).disposition SIGCHLD = .bsd SIGCHLD .default := by
  rw [guarded, SignalState.signal_self]

theorem guarded_blocked : (guarded s).blocked = insert SIGCHLD s.blocked := by
  simp [guarded]

def unguarded : SignalState :=
  ((guarded s).setMask true s.blocked).signal SIGCHLD (s.disposition SIGCHLD).handler

theorem unguarded_quit : (unguarded s).disposition SIGQUIT = ignored := by
  rw [unguarded, SignalState.signal_other _ _ quit_ne_chld, SignalState.setMask_disposition,
    guarded_quit]

theorem unguarded_chld : (unguarded s).disposition SIGCHLD =
    .bsd SIGCHLD (s.disposition SIGCHLD).handler := by
  rw [unguarded, SignalState.signal_self]

theorem unguarded_blocked : (unguarded s).blocked = s.blocked := rfl

end States

section Exits

variable {ans : SignalAnswers} (s : SignalState)

theorem restored_quit_failed (h : ans.ignoreQuit = false) :
    Restored ans s (s.sigaction true SIGINT ignored) ↔ s.disposition SIGINT = ignored := by
  constructor
  · intro hr
    have hint := hr.int (by simp [SignalAnswers.intLost, h])
    rw [SignalState.sigaction_self] at hint
    exact hint.symm
  · intro hs
    refine ⟨fun _ => ?_, fun _ => ?_, ?_, ?_⟩
    · rw [SignalState.sigaction_self, hs]
    · exact SignalState.sigaction_other _ _ _ int_ne_quit.symm
    · exact SignalState.sigaction_other _ _ _ int_ne_chld.symm
    · exact SignalState.sigaction_blocked ..

theorem restored_block_failed (h : ans.block = false) :
    Restored ans s ((s.sigaction true SIGINT ignored).sigaction true SIGQUIT ignored) ↔
      s.disposition SIGINT = ignored ∧ s.disposition SIGQUIT = ignored := by
  constructor
  · intro hr
    have hint := hr.int (by simp [SignalAnswers.intLost, h])
    have hquit := hr.quit (by simp [SignalAnswers.quitLost, h])
    rw [SignalState.sigaction_other _ _ _ int_ne_quit, SignalState.sigaction_self] at hint
    rw [SignalState.sigaction_self] at hquit
    exact ⟨hint.symm, hquit.symm⟩
  · rintro ⟨hint, hquit⟩
    refine ⟨fun _ => ?_, fun _ => ?_, ?_, ?_⟩
    · rw [SignalState.sigaction_other _ _ _ int_ne_quit, SignalState.sigaction_self, hint]
    · rw [SignalState.sigaction_self, hquit]
    · rw [SignalState.sigaction_other _ _ _ quit_ne_chld.symm,
        SignalState.sigaction_other _ _ _ int_ne_chld.symm]
    · rw [SignalState.sigaction_blocked, SignalState.sigaction_blocked]

theorem restored_mask_failed (h : ans.restoreMask = false) :
    Restored ans s (guarded s) ↔
      s.disposition SIGINT = ignored ∧ s.disposition SIGQUIT = ignored ∧
        s.disposition SIGCHLD = .bsd SIGCHLD .default ∧ SIGCHLD ∈ s.blocked := by
  constructor
  · intro hr
    have hint := hr.int (by simp [SignalAnswers.intLost, h])
    have hquit := hr.quit (by simp [SignalAnswers.quitLost, h])
    have hchld := hr.chld
    have hblocked := hr.blocked
    rw [guarded_int] at hint
    rw [guarded_quit] at hquit
    rw [guarded_chld] at hchld
    rw [guarded_blocked, Finset.insert_eq_self] at hblocked
    exact ⟨hint.symm, hquit.symm, hchld.symm, hblocked⟩
  · rintro ⟨hint, hquit, hchld, hblocked⟩
    refine ⟨fun _ => ?_, fun _ => ?_, ?_, ?_⟩
    · rw [guarded_int, hint]
    · rw [guarded_quit, hquit]
    · rw [guarded_chld, hchld]
    · rw [guarded_blocked, Finset.insert_eq_self]
      exact hblocked

theorem restored_int_failed (hlost : ans.intLost = true) (h : ans.restoreInt = false) :
    Restored ans s (unguarded s) ↔ s.disposition SIGQUIT = ignored ∧
      s.disposition SIGCHLD = .bsd SIGCHLD (s.disposition SIGCHLD).handler := by
  constructor
  · intro hr
    have hquit := hr.quit (by simp [SignalAnswers.quitLost, h])
    have hchld := hr.chld
    rw [unguarded_quit] at hquit
    rw [unguarded_chld] at hchld
    exact ⟨hquit.symm, hchld.symm⟩
  · rintro ⟨hquit, hchld⟩
    refine ⟨fun hint => ?_, fun _ => ?_, ?_, rfl⟩
    · rw [hlost] at hint
      cases hint
    · rw [unguarded_quit, hquit]
    · rw [unguarded_chld, ← hchld]

theorem restored_end (hq : ans.quitLost = !ans.restoreQuit) :
    Restored ans s ((((unguarded s).sigaction true SIGINT (s.disposition SIGINT)).sigaction
        ans.restoreQuit SIGQUIT (s.disposition SIGQUIT))) ↔
      s.disposition SIGCHLD = .bsd SIGCHLD (s.disposition SIGCHLD).handler := by
  have hchld : (((unguarded s).sigaction true SIGINT (s.disposition SIGINT)).sigaction
      ans.restoreQuit SIGQUIT (s.disposition SIGQUIT)).disposition SIGCHLD =
        .bsd SIGCHLD (s.disposition SIGCHLD).handler := by
    rw [SignalState.sigaction_other _ _ _ quit_ne_chld.symm,
      SignalState.sigaction_other _ _ _ int_ne_chld.symm, unguarded_chld]
  constructor
  · intro hr
    have hr := hr.chld
    rw [hchld] at hr
    exact hr.symm
  · intro hs
    refine ⟨fun _ => ?_, fun hquit => ?_, ?_, ?_⟩
    · rw [SignalState.sigaction_other _ _ _ int_ne_quit, SignalState.sigaction_self]
    · rw [hq] at hquit
      have hok : ans.restoreQuit = true := by simpa using hquit
      rw [hok, SignalState.sigaction_self]
    · rw [hchld, ← hs]
    · rw [SignalState.sigaction_blocked, SignalState.sigaction_blocked, unguarded_blocked]

theorem restore_signals (status : BitVec 32) :
    (restore ans s status (guarded s)).2 =
      if ans.restoreMask = false then guarded s
      else if ans.restoreInt = false then unguarded s
      else ((unguarded s).sigaction true SIGINT (s.disposition SIGINT)).sigaction
        ans.restoreQuit SIGQUIT (s.disposition SIGQUIT) := by
  unfold restore
  cases ans.restoreMask <;> cases ans.restoreInt <;> cases ans.restoreQuit <;> rfl

theorem restored_done (hi : ans.ignoreInt = true) (hq : ans.ignoreQuit = true)
    (hb : ans.block = true) (status : BitVec 32) :
    Restored ans s (restore ans s status (guarded s)).2 ↔ RestoresFrom ans s := by
  rw [restore_signals]
  simp only [RestoresFrom, hi, hq, hb, Bool.true_eq_false, ↓reduceIte]
  cases hmask : ans.restoreMask with
  | false => exact restored_mask_failed s hmask
  | true =>
    cases hint : ans.restoreInt with
    | false =>
      apply restored_int_failed s _ hint
      simp [SignalAnswers.intLost, hi, hq, hb, hmask, hint]
    | true =>
      apply restored_end
      simp [SignalAnswers.quitLost, hi, hq, hb, hmask, hint]

end Exits

section Examples

def quitFails : SignalAnswers := ⟨true, false, true, true, true, true⟩

end Examples

end RlLibrary.Command
