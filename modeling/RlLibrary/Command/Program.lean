import RlLibrary.Foundation.Signals
import RlLibrary.Public
import RlLibrary.Str.Basic

/-!
`rl_system_100ms_ex` of `rlcmd.c`. Outcomes of the system calls are arguments. The poll loop of
an attempt may never end, so it has fuel. What the child does with its signals is in `childCalls`.
-/

namespace RlLibrary.Command

open Foundation Str

/-- `waitpid(pid, &status, WNOHANG)`. `noChild` is any error but EINTR: for the pid of an own
child that is ECHILD, the child is no longer there to wait for. -/
inductive PollResult where
  | running
  | ended (t : Termination)
  | interrupted
  | noChild
  deriving DecidableEq

inductive KillResult where
  | delivered
  | refused
  | noProcess
  deriving DecidableEq

inductive ReapResult where
  | reaped
  | interrupted
  | noChild
  deriving DecidableEq

structure AttemptEnv where
  fork : Bool
  poll : ℕ → PollResult
  kill : KillResult
  reap : ReapResult

inductive Child where
  | never
  | running
  | zombie
  | gone
  deriving DecidableEq

inductive Ending where
  | notForked
  | waiting
  | ended (t : Termination)
  | lost
  | timedOut
  deriving DecidableEq

structure Attempt where
  ending : Ending
  child : Child
  deriving DecidableEq

inductive PassExit where
  | finished (status : BitVec 32)
  | retry (status : BitVec 32)
  | exited
  | waiting
  deriving DecidableEq

def failedStatus : BitVec 32 := BitVec.ofInt 32 RL_FAILED

def EXIT_FAILURE : ℤ := 1

def AttemptEnv.childAfterKill (a : AttemptEnv) : Child :=
  match a.kill with
  | .refused => .running
  | .noProcess => .gone
  | .delivered =>
    match a.reap with
    | .reaped => .gone
    | .interrupted => .zombie
    | .noChild => .gone

def pollLoop (timeoutCount : ℤ) (a : AttemptEnv) : ℕ → ℕ → ℤ → PassExit × Attempt
  | 0, _, _ => (.waiting, ⟨.waiting, .running⟩)
  | fuel + 1, k, leftTime =>
    match a.poll k with
    | .ended t => (.finished t.status, ⟨.ended t, .gone⟩)
    | .noChild => (.finished failedStatus, ⟨.lost, .gone⟩)
    | _ =>
      if timeoutCount > 0 then
        -- `needRetry` is set whatever `kill` answers
        if leftTime - 1 ≤ 0 then (.retry failedStatus, ⟨.timedOut, a.childAfterKill⟩)
        else pollLoop timeoutCount a fuel (k + 1) (leftTime - 1)
      else pollLoop timeoutCount a fuel (k + 1) leftTime

def runAttempt (timeoutCount : ℤ) (a : AttemptEnv) (fuel : ℕ) : PassExit × Attempt :=
  if a.fork = false then (.exited, ⟨.notForked, .never⟩)
  else pollLoop timeoutCount a fuel 0 timeoutCount

inductive LoopExit where
  | done (status : BitVec 32)
  | exited (code : ℤ)
  | waiting
  deriving DecidableEq

def attemptLoop (timeoutCount : ℤ) (env : ℕ → AttemptEnv) (fuel : ℕ) :
    ℕ → ℕ → BitVec 32 → LoopExit × List Attempt
  | 0, _, status => (.done status, [])
  | n + 1, k, _ =>
    let (exit, a) := runAttempt timeoutCount (env k) fuel
    match exit with
    | .finished status => (.done status, [a])
    | .retry status =>
      let rest := attemptLoop timeoutCount env fuel n (k + 1) status
      (rest.1, a :: rest.2)
    | .exited => (.exited EXIT_FAILURE, [a])
    | .waiting => (.waiting, [a])

/-- `i` runs from -1 while it is below `try_count`. -/
def passes (tryCount : ℤ) : ℕ := (tryCount - -1).toNat

def resultOf (status : BitVec 32) : ℤ :=
  if WIFEXITED status then RL_SUCCESS
  else if WIFSIGNALED status then -(WTERMSIG status).toInt
  else RL_FAILED

inductive Outcome where
  | returned (code : ℤ)
  | exited (code : ℤ)
  | waiting
  deriving DecidableEq

structure Run where
  outcome : Outcome
  signals : SignalState
  attempts : List Attempt

structure SignalAnswers where
  ignoreInt : Bool
  ignoreQuit : Bool
  block : Bool
  restoreMask : Bool
  restoreInt : Bool
  restoreQuit : Bool
  deriving DecidableEq

def ignored : Disposition := ⟨.ignore, 0#32, ∅⟩

def guarded (s : SignalState) : SignalState :=
  (((s.sigaction true SIGINT ignored).sigaction true SIGQUIT ignored).block true SIGCHLD).signal
    SIGCHLD .default

def restore (ans : SignalAnswers) (saved : SignalState) (status : BitVec 32)
    (s : SignalState) : ℤ × SignalState :=
  if ans.restoreMask = false then (RL_FAILED, s) else
  -- `old_handler` is all that was kept of SIGCHLD
  let s := (s.setMask true saved.blocked).signal SIGCHLD (saved.disposition SIGCHLD).handler
  if ans.restoreInt = false then (RL_FAILED, s) else
  let s := s.sigaction true SIGINT (saved.disposition SIGINT)
  if ans.restoreQuit = false then (RL_FAILED, s) else
  (resultOf status, s.sigaction true SIGQUIT (saved.disposition SIGQUIT))

/-- What follows the retry loop; `exit` and a loop that never ends restore nothing. -/
def leave (ans : SignalAnswers) (saved : SignalState) : LoopExit → Outcome × SignalState
  | .exited code => (.exited code, guarded saved)
  | .waiting => (.waiting, guarded saved)
  | .done status =>
    let r := restore ans saved status (guarded saved)
    (.returned r.1, r.2)

def rlSystem100msEx (cmdStr : Option CString) (timeoutCount tryCount : ℤ) (ans : SignalAnswers)
    (env : ℕ → AttemptEnv) (fuel : ℕ) (s : SignalState) : Run :=
  if rlStrIsempty cmdStr then ⟨.returned RL_FAILED, s, []⟩ else
  if ans.ignoreInt = false then ⟨.returned RL_FAILED, s, []⟩ else
  if ans.ignoreQuit = false then ⟨.returned RL_FAILED, s.sigaction true SIGINT ignored, []⟩ else
  if ans.block = false then
    ⟨.returned RL_FAILED, (s.sigaction true SIGINT ignored).sigaction true SIGQUIT ignored, []⟩
  else
    let r := attemptLoop timeoutCount env fuel (passes tryCount) 0 (BitVec.ofInt 32 RL_SUCCESS)
    let last := leave ans s r.1
    ⟨last.1, last.2, r.2⟩

structure Enters (cmdStr : Option CString) (ans : SignalAnswers) : Prop where
  command : rlStrIsempty cmdStr = false
  ignoreInt : ans.ignoreInt = true
  ignoreQuit : ans.ignoreQuit = true
  block : ans.block = true

theorem rlSystem100msEx_enters {cmdStr : Option CString} {ans : SignalAnswers}
    (h : Enters cmdStr ans) (timeoutCount tryCount : ℤ) (env : ℕ → AttemptEnv) (fuel : ℕ)
    (s : SignalState) :
    let r := attemptLoop timeoutCount env fuel (passes tryCount) 0 (BitVec.ofInt 32 RL_SUCCESS)
    rlSystem100msEx cmdStr timeoutCount tryCount ans env fuel s =
      ⟨(leave ans s r.1).1, (leave ans s r.1).2, r.2⟩ := by
  simp [rlSystem100msEx, h.command, h.ignoreInt, h.ignoreQuit, h.block]

theorem rlSystem100msEx_not_enters {cmdStr : Option CString} {ans : SignalAnswers}
    (h : ¬ Enters cmdStr ans) (timeoutCount tryCount : ℤ) (env : ℕ → AttemptEnv) (fuel : ℕ)
    (s : SignalState) : ∃ signals, rlSystem100msEx cmdStr timeoutCount tryCount ans env fuel s =
      ⟨.returned RL_FAILED, signals, []⟩ := by
  by_cases hcmd : rlStrIsempty cmdStr = true
  · exact ⟨s, by simp [rlSystem100msEx, hcmd]⟩
  by_cases hint : ans.ignoreInt = false
  · exact ⟨s, by simp [rlSystem100msEx, hcmd, hint]⟩
  by_cases hquit : ans.ignoreQuit = false
  · exact ⟨s.sigaction true SIGINT ignored, by simp [rlSystem100msEx, hcmd, hint, hquit]⟩
  by_cases hblock : ans.block = false
  · exact ⟨(s.sigaction true SIGINT ignored).sigaction true SIGQUIT ignored,
      by simp [rlSystem100msEx, hcmd, hint, hquit, hblock]⟩
  simp only [Bool.not_eq_true, Bool.not_eq_false] at hcmd hint hquit hblock
  exact absurd ⟨hcmd, hint, hquit, hblock⟩ h

end RlLibrary.Command
