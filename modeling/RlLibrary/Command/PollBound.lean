import RlLibrary.Command.Result
import RlLibrary.Foundation.Checked

namespace RlLibrary.Command

open Foundation Str

def countedPoll (timeoutCount : ℤ) (a : AttemptEnv) : ℕ → ℕ → ℤ → Option ((PassExit × Attempt) × ℕ)
  | 0, _, _ => some ((.waiting, ⟨.waiting, .running⟩), 0)
  | fuel + 1, k, leftTime =>
    match a.poll k with
    | .ended t => some ((.finished t.status, ⟨.ended t, .gone⟩), 1)
    | .noChild => some ((.finished failedStatus, ⟨.lost, .gone⟩), 1)
    | _ =>
      if timeoutCount > 0 then do
        let leftTime ← checked (leftTime - 1)
        if leftTime ≤ 0 then some ((.retry failedStatus, ⟨.timedOut, a.childAfterKill⟩), 1) else do
        let r ← countedPoll timeoutCount a fuel (k + 1) leftTime
        some (r.1, r.2 + 1)
      else do
        let r ← countedPoll timeoutCount a fuel (k + 1) leftTime
        some (r.1, r.2 + 1)

def countedAttempt (timeoutCount : ℤ) (a : AttemptEnv) (fuel : ℕ) :
    Option ((PassExit × Attempt) × ℕ) :=
  if a.fork = false then some ((.exited, ⟨.notForked, .never⟩), 0)
  else countedPoll timeoutCount a fuel 0 timeoutCount

/-- The `for` loop from the value `i` of its counter on; after each pass `i` is incremented,
also after the last one. -/
def countedLoop (timeoutCount tryCount : ℤ) (env : ℕ → AttemptEnv) (fuel : ℕ) :
    ℕ → ℤ → ℕ → BitVec 32 → Option ((LoopExit × List Attempt) × ℕ)
  | 0, _, _, _ => some ((.waiting, []), 0)
  | rounds + 1, i, k, status =>
    if i < tryCount then do
      let r ← countedAttempt timeoutCount (env k) fuel
      match r.1.1 with
      | .finished status => do
        let _ ← checked (i + 1)
        some ((.done status, [r.1.2]), r.2)
      | .retry status => do
        let i ← checked (i + 1)
        let rest ← countedLoop timeoutCount tryCount env fuel rounds i (k + 1) status
        some ((rest.1.1, r.1.2 :: rest.1.2), r.2 + rest.2)
      | .exited => some ((.exited EXIT_FAILURE, [r.1.2]), r.2)
      | .waiting => some ((.waiting, [r.1.2]), r.2)
    else some ((.done status, []), 0)

/-- The call and the number of its polls; `none` when a counter overflows. -/
def countedSystem (cmdStr : Option CString) (timeoutCount tryCount : ℤ) (ans : SignalAnswers)
    (env : ℕ → AttemptEnv) (fuel rounds : ℕ) (s : SignalState) : Option (Run × ℕ) :=
  if rlStrIsempty cmdStr then some (⟨.returned RL_FAILED, s, []⟩, 0) else
  if ans.ignoreInt = false then some (⟨.returned RL_FAILED, s, []⟩, 0) else
  if ans.ignoreQuit = false then
    some (⟨.returned RL_FAILED, s.sigaction true SIGINT ignored, []⟩, 0) else
  if ans.block = false then
    some (⟨.returned RL_FAILED,
      (s.sigaction true SIGINT ignored).sigaction true SIGQUIT ignored, []⟩, 0)
  else do
    let r ← countedLoop timeoutCount tryCount env fuel rounds (-1) 0 (BitVec.ofInt 32 RL_SUCCESS)
    let last := leave ans s r.1.1
    some (⟨last.1, last.2, r.1.2⟩, r.2)

section Bound

variable {timeoutCount tryCount : ℤ} {a : AttemptEnv}

theorem countedPoll_pending {k : ℕ} (hk : (a.poll k).Pending) (ht : 0 < timeoutCount) {leftTime : ℤ}
    (hnext : InInt (leftTime - 1)) (fuel : ℕ) :
    countedPoll timeoutCount a (fuel + 1) k leftTime =
      if leftTime - 1 ≤ 0 then some ((.retry failedStatus, ⟨.timedOut, a.childAfterKill⟩), 1)
      else (countedPoll timeoutCount a fuel (k + 1) (leftTime - 1)).bind
        fun r => some (r.1, r.2 + 1) := by
  rcases hk with hk | hk <;> simp [countedPoll, hk, ht, checked_of hnext]

theorem countedPoll_bound (ht : 0 < timeoutCount) {fuel : ℕ} (k : ℕ) {leftTime : ℤ}
    (hpos : 0 < leftTime) (hint : InInt leftTime) (hfuel : leftTime ≤ fuel) :
    ∃ polls : ℕ, countedPoll timeoutCount a fuel k leftTime =
        some (pollLoop timeoutCount a fuel k leftTime, polls) ∧
      (pollLoop timeoutCount a fuel k leftTime).1 ≠ .waiting ∧ polls ≤ leftTime := by
  induction fuel generalizing k leftTime with
  | zero =>
    push_cast at hfuel
    omega
  | succ fuel ih =>
    have hnext : InInt (leftTime - 1) := by
      obtain ⟨hlow, hhigh⟩ := hint
      constructor <;> omega
    by_cases hk : (a.poll k).Pending
    · rw [countedPoll_pending hk ht hnext, pollLoop_pending hk, if_pos ht]
      by_cases hlast : leftTime - 1 ≤ 0
      · rw [if_pos hlast, if_pos hlast]
        exact ⟨1, rfl, by simp, by omega⟩
      · rw [if_neg hlast, if_neg hlast]
        push_cast at hfuel
        obtain ⟨polls, heq, hends, hle⟩ := ih (k + 1) (by omega) hnext (by omega)
        refine ⟨polls + 1, by simp [heq], hends, ?_⟩
        push_cast
        omega
    · cases hpoll : a.poll k with
      | ended t =>
        refine ⟨1, by simp [countedPoll, pollLoop, hpoll], by simp [pollLoop, hpoll], by omega⟩
      | noChild =>
        refine ⟨1, by simp [countedPoll, pollLoop, hpoll], by simp [pollLoop, hpoll], by omega⟩
      | running => exact absurd (Or.inl hpoll) hk
      | interrupted => exact absurd (Or.inr hpoll) hk

theorem countedAttempt_bound (ht : 0 < timeoutCount) (hint : InInt timeoutCount)
    (a : AttemptEnv) {fuel : ℕ} (hfuel : timeoutCount ≤ fuel) :
    ∃ polls : ℕ, countedAttempt timeoutCount a fuel = some (runAttempt timeoutCount a fuel, polls) ∧
      (runAttempt timeoutCount a fuel).1 ≠ .waiting ∧ polls ≤ timeoutCount := by
  cases hf : a.fork with
  | false =>
    refine ⟨0, by simp [countedAttempt, runAttempt, hf], by simp [runAttempt, hf], ?_⟩
    push_cast
    omega
  | true =>
    simp only [countedAttempt, runAttempt, hf, Bool.true_eq_false, ↓reduceIte]
    exact countedPoll_bound ht 0 ht hint hfuel

theorem countedLoop_bound (env : ℕ → AttemptEnv) (ht : 0 < timeoutCount) (hint : InInt timeoutCount)
    (htry : InInt tryCount) {fuel : ℕ} (hfuel : timeoutCount ≤ fuel) (n k rounds : ℕ)
    (hrounds : n < rounds) {i : ℤ} (hi : -1 ≤ i) (hn : tryCount - i = n) (status : BitVec 32) :
    ∃ polls : ℕ, countedLoop timeoutCount tryCount env fuel rounds i k status =
        some (attemptLoop timeoutCount env fuel n k status, polls) ∧
      (attemptLoop timeoutCount env fuel n k status).1 ≠ .waiting ∧
      (polls : ℤ) ≤ n * timeoutCount := by
  induction n generalizing k rounds i status with
  | zero =>
    obtain ⟨rounds, rfl⟩ := Nat.exists_eq_add_one_of_ne_zero (Nat.ne_zero_of_lt hrounds)
    have hdone : ¬ i < tryCount := by
      push_cast at hn
      omega
    refine ⟨0, by rw [countedLoop, if_neg hdone]; rfl, by simp [attemptLoop], by simp⟩
  | succ n ih =>
    obtain ⟨rounds, rfl⟩ := Nat.exists_eq_add_one_of_ne_zero (Nat.ne_zero_of_lt hrounds)
    push_cast at hn
    have hmore : i < tryCount := by omega
    have hnext : InInt (i + 1) := by
      obtain ⟨hlow, hhigh⟩ := htry
      constructor <;> omega
    have hproduct : ((n + 1 : ℕ) : ℤ) * timeoutCount = n * timeoutCount + timeoutCount := by
      push_cast
      rw [Int.add_mul, Int.one_mul]
    have hrest : 0 ≤ n * timeoutCount := Int.mul_nonneg (Int.natCast_nonneg n) ht.le
    obtain ⟨polls, heq, hends, hle⟩ := countedAttempt_bound ht hint (env k) hfuel
    rw [countedLoop, if_pos hmore, heq, hproduct]
    cases hrun : runAttempt timeoutCount (env k) fuel with
    | mk exit attempt =>
      rw [hrun] at hends
      cases exit with
      | finished final =>
        refine ⟨polls, by simp [attemptLoop, hrun, checked_of hnext], by simp [attemptLoop, hrun], ?_⟩
        omega
      | exited =>
        refine ⟨polls, by simp [attemptLoop, hrun], by simp [attemptLoop, hrun], ?_⟩
        omega
      | waiting => exact absurd rfl hends
      | retry final =>
        obtain ⟨later, hloop, hdone, hlater⟩ :=
          ih (k + 1) rounds (by omega) (i := i + 1) (by omega) (by omega) final
        refine ⟨polls + later, ?_, ?_, ?_⟩
        · simp [attemptLoop, hrun, checked_of hnext, hloop]
        · simpa [attemptLoop, hrun] using hdone
        · push_cast
          omega

end Bound

theorem countedSystem_enters {cmdStr : Option CString} {ans : SignalAnswers}
    (h : Enters cmdStr ans) (timeoutCount tryCount : ℤ) (env : ℕ → AttemptEnv) (fuel rounds : ℕ)
    (s : SignalState) :
    countedSystem cmdStr timeoutCount tryCount ans env fuel rounds s =
      (countedLoop timeoutCount tryCount env fuel rounds (-1) 0 (BitVec.ofInt 32 RL_SUCCESS)).bind
        fun r => some (⟨(leave ans s r.1.1).1, (leave ans s r.1.1).2, r.1.2⟩, r.2) := by
  simp only [countedSystem, h.command, h.ignoreInt, h.ignoreQuit, h.block, Bool.false_eq_true,
    Bool.true_eq_false, ↓reduceIte]
  rfl

theorem countedSystem_not_enters {cmdStr : Option CString} {ans : SignalAnswers}
    (h : ¬ Enters cmdStr ans) (timeoutCount tryCount : ℤ) (env : ℕ → AttemptEnv) (fuel rounds : ℕ)
    (s : SignalState) :
    countedSystem cmdStr timeoutCount tryCount ans env fuel rounds s =
      some (rlSystem100msEx cmdStr timeoutCount tryCount ans env fuel s, 0) := by
  unfold rlSystem100msEx countedSystem
  by_cases hcmd : rlStrIsempty cmdStr = true
  · simp [hcmd]
  by_cases hint : ans.ignoreInt = false
  · simp [hcmd, hint]
  by_cases hquit : ans.ignoreQuit = false
  · simp [hcmd, hint, hquit]
  by_cases hblock : ans.block = false
  · simp [hcmd, hint, hquit, hblock]
  simp only [Bool.not_eq_true, Bool.not_eq_false] at hcmd hint hquit hblock
  exact absurd ⟨hcmd, hint, hquit, hblock⟩ h

theorem system_polls_bounded (cmdStr : Option CString) (timeoutCount tryCount : BitVec 32)
    (ht : 0 < timeoutCount.toInt) (htry : 0 ≤ tryCount.toInt) (ans : SignalAnswers)
    (env : ℕ → AttemptEnv) (s : SignalState) {fuel rounds : ℕ} (hfuel : timeoutCount.toInt ≤ fuel)
    (hrounds : tryCount.toInt + 1 < rounds) :
    let run := rlSystem100msEx cmdStr timeoutCount.toInt tryCount.toInt ans env fuel s
    run.outcome ≠ .waiting ∧ ∃ polls : ℕ,
      countedSystem cmdStr timeoutCount.toInt tryCount.toInt ans env fuel rounds s = some (run, polls) ∧
      polls ≤ (tryCount.toInt + 1) * timeoutCount.toInt := by
  have hint (v : BitVec 32) : InInt v.toInt := ⟨BitVec.le_toInt v, BitVec.toInt_lt⟩
  have hproduct : 0 ≤ (tryCount.toInt + 1) * timeoutCount.toInt := Int.mul_nonneg (by omega) ht.le
  by_cases henter : Enters cmdStr ans
  · have hpasses : tryCount.toInt - -1 = passes tryCount.toInt := by
      rw [passes]
      omega
    obtain ⟨polls, hcounted, hends, hle⟩ := countedLoop_bound env ht (hint timeoutCount)
      (hint tryCount) hfuel (passes tryCount.toInt) 0 rounds (by omega) (Int.le_refl (-1)) hpasses
      (BitVec.ofInt 32 RL_SUCCESS)
    intro run
    have hrun : run = _ := rlSystem100msEx_enters henter _ _ env fuel s
    refine ⟨?_, polls, ?_, ?_⟩
    · rw [hrun]
      generalize attemptLoop _ env fuel _ 0 _ = r at hends
      obtain ⟨exit, attempts⟩ := r
      cases exit with
      | done status => simp [leave]
      | exited code => simp [leave]
      | waiting => exact absurd rfl hends
    · rw [countedSystem_enters henter, hcounted, hrun]
      rfl
    · rwa [← hpasses, Int.sub_neg] at hle
  · obtain ⟨signals, hrun⟩ := rlSystem100msEx_not_enters henter timeoutCount.toInt tryCount.toInt
      env fuel s
    refine ⟨by simp [hrun], 0, countedSystem_not_enters henter _ _ env fuel rounds s, ?_⟩
    push_cast
    exact hproduct

theorem system_polls_bounded_hung :
    let run := rlSystem100msEx (some listFiles) (2#32).toInt (1#32).toInt .allSucceed hangsOnce 2
      plainSignals
    run.outcome ≠ .waiting ∧ ∃ polls : ℕ,
      countedSystem (some listFiles) (2#32).toInt (1#32).toInt .allSucceed hangsOnce 2 3
        plainSignals = some (run, polls) ∧
      polls ≤ ((1#32).toInt + 1) * (2#32).toInt :=
  system_polls_bounded (some listFiles) 2#32 1#32 (by decide) (by decide) .allSucceed hangsOnce
    plainSignals (by decide) (by decide)

end RlLibrary.Command
