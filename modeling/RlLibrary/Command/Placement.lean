import RlLibrary.Command.Children

namespace RlLibrary.Command

open Foundation Str

/-- The child of one attempt. With `some (m, t)` it ends on its own as `t`, after the steps of the
parent before `m` and before step `m` itself. -/
structure ChildRun where
  fork : Bool
  ends : Option (ℕ × Termination)
  interrupted : ℕ → Bool
  kill : KillResult
  reap : ReapResult

def pollStep (j : ℕ) : ℕ := 2 * j

def killStep (timeoutCount : ℤ) : ℕ := 2 * timeoutCount.toNat

namespace ChildRun

def poll (c : ChildRun) (j : ℕ) : PollResult :=
  if c.interrupted j then .interrupted else
  match c.ends with
  | none => .running
  | some (m, t) => if m ≤ pollStep j then .ended t else .running

def env (c : ChildRun) : AttemptEnv := ⟨c.fork, c.poll, c.kill, c.reap⟩

def EndsBeforeKill (timeoutCount : ℤ) (c : ChildRun) (t : Termination) : Prop :=
  c.fork = true ∧ ∃ m ≤ killStep timeoutCount, c.ends = some (m, t)

def Seen (timeoutCount : ℤ) (c : ChildRun) : Prop :=
  ∃ m t, c.ends = some (m, t) ∧
    ∃ j < timeoutCount.toNat, m ≤ pollStep j ∧ c.interrupted j = false

end ChildRun

def SignalAnswers.Restores (ans : SignalAnswers) : Prop :=
  ans.restoreMask = true ∧ ans.restoreInt = true ∧ ans.restoreQuit = true

/-- A child that `SIGHUP` killed is reported as -1, which is `RL_FAILED`. -/
def ByHangup : Termination → Prop
  | .exited _ => False
  | .killed signal _ => signal.number = 1

def ReportsEnded (timeoutCount : ℤ) (children : ℕ → ChildRun) (run : Run) : Prop :=
  ∀ k < run.attempts.length, ∀ t, (children k).EndsBeforeKill timeoutCount t →
    run.attempts.length = k + 1 ∧ run.outcome = .returned (Ending.ended t).verdict

/-- In every attempt that is reached, a child that ends before its kill is seen by a poll, and
the signals can be restored; a child that `SIGHUP` killed may also end after the last poll of
the last attempt. -/
def AllSeen (timeoutCount : ℤ) (ans : SignalAnswers) (children : ℕ → ChildRun) (n : ℕ) : Prop :=
  ∀ k < n, (∀ j < k, (children j).env.TimesOut timeoutCount) →
    ∀ t, (children k).EndsBeforeKill timeoutCount t →
      ((children k).Seen timeoutCount ∧ ans.Restores) ∨
        (ByHangup t ∧ ((children k).Seen timeoutCount ∨ k + 1 = n))

section Attempt

variable {timeoutCount : ℤ} {c : ChildRun}

theorem pollLoop_answer (timeoutCount : ℤ) (a : AttemptEnv) (fuel k : ℕ) (leftTime : ℤ) :
    (∀ t, (pollLoop timeoutCount a fuel k leftTime).2.ending = .ended t → ∃ j, a.poll j = .ended t) ∧
      ((pollLoop timeoutCount a fuel k leftTime).2.ending = .lost → ∃ j, a.poll j = .noChild) := by
  induction fuel generalizing k leftTime with
  | zero => simp [pollLoop]
  | succ fuel ih =>
    by_cases hk : (a.poll k).Pending
    · rw [pollLoop_pending hk]
      split_ifs
      · simp
      · exact ih _ _
      · exact ih _ _
    · cases hpoll : a.poll k with
      | ended t =>
        simp only [pollLoop, hpoll, Ending.ended.injEq, reduceCtorEq, false_imp_iff, and_true]
        rintro t rfl
        exact ⟨k, hpoll⟩
      | noChild =>
        simp only [pollLoop, hpoll, reduceCtorEq, false_imp_iff, implies_true, true_and]
        exact fun _ => ⟨k, hpoll⟩
      | running => exact absurd (Or.inl hpoll) hk
      | interrupted => exact absurd (Or.inr hpoll) hk

theorem poll_pending (c : ChildRun) (j : ℕ) : (c.poll j).Pending ↔
    ¬ ∃ m t, c.ends = some (m, t) ∧ m ≤ pollStep j ∧ c.interrupted j = false := by
  rw [ChildRun.poll]
  cases hinterrupted : c.interrupted j with
  | true => simp [PollResult.Pending]
  | false =>
    cases hends : c.ends with
    | none => simp [PollResult.Pending]
    | some e =>
      obtain ⟨m, t⟩ := e
      by_cases hm : m ≤ pollStep j
      · simp [PollResult.Pending, hm]
      · simp [PollResult.Pending, hm]

theorem timesOut_iff (ht : 0 < timeoutCount) (hf : c.fork = true) :
    c.env.TimesOut timeoutCount ↔ ¬ c.Seen timeoutCount := by
  simp only [AttemptEnv.TimesOut, ChildRun.env, hf, ht, true_and, poll_pending, ChildRun.Seen]
  constructor
  · rintro h ⟨m, t, hends, j, hj, hm, hinterrupted⟩
    exact h j hj ⟨m, t, hends, hm, hinterrupted⟩
  · rintro h j hj ⟨m, t, hends, hm, hinterrupted⟩
    exact h ⟨m, t, hends, j, hj, hm, hinterrupted⟩

theorem poll_ended {j m : ℕ} {t t' : Termination} (hends : c.ends = some (m, t))
    (h : c.poll j = .ended t') : t' = t := by
  simp only [ChildRun.poll, hends] at h
  split_ifs at h
  exact (PollResult.ended.inj h).symm

theorem poll_own (c : ChildRun) (j : ℕ) : c.poll j ≠ .noChild := by
  simp only [ChildRun.poll]
  split_ifs
  · simp
  · split
    · simp
    · split_ifs <;> simp

theorem runAttempt_seen (ht : 0 < timeoutCount) (hf : c.fork = true) (hseen : c.Seen timeoutCount)
    {m : ℕ} {t : Termination} (hends : c.ends = some (m, t)) {fuel : ℕ}
    (hfuel : timeoutCount.toNat ≤ fuel) :
    runAttempt timeoutCount c.env fuel = (.finished t.status, ⟨.ended t, .gone⟩) := by
  have hpass := runAttempt_cases timeoutCount c.env fuel
  have hrun : runAttempt timeoutCount c.env fuel = pollLoop timeoutCount c.env fuel 0 timeoutCount := by
    simp only [runAttempt, ChildRun.env, hf, Bool.true_eq_false, ↓reduceIte]
  obtain ⟨hended, hlost⟩ := pollLoop_answer timeoutCount c.env fuel 0 timeoutCount
  have hends' : (pollLoop timeoutCount c.env fuel 0 timeoutCount).1 ≠ .waiting := by
    obtain ⟨_, _, hsome, j, hj, hm, hinterrupted⟩ := hseen
    apply pollLoop_stops j fuel 0 _ _ (by omega)
    rw [Nat.zero_add]
    exact fun hpending => (poll_pending c j).mp hpending ⟨_, _, hsome, hm, hinterrupted⟩
  rw [← hrun] at hended hlost hends'
  generalize runAttempt timeoutCount c.env fuel = r at hpass hended hlost hends' ⊢
  cases hpass with
  | notForked hnot => exact absurd hnot (by simp [ChildRun.env, hf])
  | ended t' _ =>
    obtain ⟨j, hj⟩ := hended t' rfl
    rw [poll_ended hends hj]
  | lost _ =>
    obtain ⟨j, hj⟩ := hlost rfl
    exact absurd hj (poll_own c j)
  | timedOut htimes => exact absurd hseen ((timesOut_iff ht hf).mp htimes)
  | waiting _ => exact absurd rfl hends'

end Attempt

section Leaving

variable {ans : SignalAnswers}

theorem leave_failed (ans : SignalAnswers) (s : SignalState) :
    (leave ans s (.done failedStatus)).1 = .returned RL_FAILED := by
  simp only [leave, restore, resultOf_failed]
  split_ifs <;> rfl

theorem verdict_failed (t : Termination) : (Ending.ended t).verdict = RL_FAILED ↔ ByHangup t := by
  cases t with
  | exited code => exact iff_of_false (by simp [Ending.verdict, RL_SUCCESS, RL_FAILED]) id
  | killed signal core =>
    simp only [Ending.verdict, RL_FAILED, ByHangup]
    omega

theorem leave_reports (ans : SignalAnswers) (s : SignalState) (t : Termination) :
    (leave ans s (.done t.status)).1 = .returned (Ending.ended t).verdict ↔
      ans.Restores ∨ ByHangup t := by
  have hresult := resultOf_ended t
  by_cases hrestores : ans.Restores
  · obtain ⟨hmask, hint, hquit⟩ := hrestores
    refine iff_of_true ?_ (Or.inl ⟨hmask, hint, hquit⟩)
    simp only [leave, restore, hmask, hint, hquit, Bool.true_eq_false, ↓reduceIte, hresult]
  · have hfailed : (leave ans s (.done t.status)).1 = .returned RL_FAILED := by
      simp only [leave, restore]
      split_ifs with hmask hint hquit
      · rfl
      · rfl
      · rfl
      · simp only [Bool.not_eq_false] at hmask hint hquit
        exact absurd ⟨hmask, hint, hquit⟩ hrestores
    rw [hfailed, Outcome.returned.injEq, eq_comm, verdict_failed, or_iff_right hrestores]

end Leaving

section Loop

variable {timeoutCount : ℤ} {ans : SignalAnswers} {children : ℕ → ChildRun}

theorem attemptLoop_shift (timeoutCount : ℤ) (env : ℕ → AttemptEnv) (fuel n k : ℕ)
    (status : BitVec 32) : attemptLoop timeoutCount env fuel n (k + 1) status =
      attemptLoop timeoutCount (fun j => env (j + 1)) fuel n k status := by
  induction n generalizing k status with
  | zero => rfl
  | succ n ih => simp only [attemptLoop, ih]

def callEnd (ans : SignalAnswers) (s : SignalState) (r : LoopExit × List Attempt) : Run :=
  ⟨(leave ans s r.1).1, (leave ans s r.1).2, r.2⟩

theorem reportsEnded_cons (outcome : Outcome) (s : SignalState) (a : Attempt) (rest : List Attempt) :
    ReportsEnded timeoutCount children ⟨outcome, s, a :: rest⟩ ↔
      (∀ t, (children 0).EndsBeforeKill timeoutCount t →
        rest = [] ∧ outcome = .returned (Ending.ended t).verdict) ∧
      ReportsEnded timeoutCount (fun j => children (j + 1)) ⟨outcome, s, rest⟩ := by
  simp only [ReportsEnded, List.length_cons, Nat.add_right_cancel_iff]
  constructor
  · intro h
    refine ⟨fun t ht => ?_, fun k hk => h (k + 1) (Nat.succ_lt_succ hk)⟩
    obtain ⟨hlength, houtcome⟩ := h 0 (Nat.succ_pos _) t ht
    exact ⟨List.length_eq_zero_iff.mp hlength, houtcome⟩
  · rintro ⟨hfirst, hrest⟩ (_ | k) hk t ht
    · obtain ⟨hnil, houtcome⟩ := hfirst t ht
      exact ⟨congrArg List.length hnil, houtcome⟩
    · exact hrest k (Nat.lt_of_succ_lt_succ hk) t ht

theorem allSeen_succ (n : ℕ) : AllSeen timeoutCount ans children (n + 1) ↔
    (∀ t, (children 0).EndsBeforeKill timeoutCount t →
      ((children 0).Seen timeoutCount ∧ ans.Restores) ∨
        (ByHangup t ∧ ((children 0).Seen timeoutCount ∨ n = 0))) ∧
    ((children 0).env.TimesOut timeoutCount →
      AllSeen timeoutCount ans (fun j => children (j + 1)) n) := by
  constructor
  · intro h
    refine ⟨fun t ht => ?_, fun hfirst k hk hall t ht => ?_⟩
    · have hzero := h 0 (Nat.succ_pos n) (fun j hj => absurd hj (Nat.not_lt_zero j)) t ht
      simpa only [Nat.add_right_cancel_iff, eq_comm] using hzero
    · have hnext := h (k + 1) (Nat.succ_lt_succ hk) (fun j hj => ?_) t ht
      · simpa only [Nat.add_right_cancel_iff] using hnext
      · cases j with
        | zero => exact hfirst
        | succ j => exact hall j (Nat.lt_of_succ_lt_succ hj)
  · rintro ⟨hzero, hrest⟩ (_ | k) hk hall t ht
    · simpa only [Nat.add_right_cancel_iff, eq_comm] using hzero t ht
    · have hnext := hrest (hall 0 (Nat.succ_pos k)) k (Nat.lt_of_succ_lt_succ hk)
        (fun j hj => hall (j + 1) (Nat.succ_lt_succ hj)) t ht
      simpa only [Nat.add_right_cancel_iff] using hnext

theorem reportsEnded_nil (outcome : Outcome) (s : SignalState) :
    ReportsEnded timeoutCount children ⟨outcome, s, []⟩ :=
  fun k hk => absurd hk (Nat.not_lt_zero k)

theorem endsBeforeKill_seen {c : ChildRun} (hf : c.fork = true) (hseen : c.Seen timeoutCount) :
    ∃ m t, c.ends = some (m, t) ∧ ∀ t', c.EndsBeforeKill timeoutCount t' ↔ t' = t := by
  obtain ⟨m, t, hends, j, hj, hm, _⟩ := hseen
  refine ⟨m, t, hends, fun t' => ⟨?_, ?_⟩⟩
  · rintro ⟨_, m', _, hends'⟩
    rw [hends, Option.some_inj, Prod.mk.injEq] at hends'
    exact hends'.2.symm
  · rintro rfl
    refine ⟨hf, m, ?_, hends⟩
    rw [pollStep] at hm
    rw [killStep]
    omega

theorem reports_unforked (timeoutCount : ℤ) (hf : (children 0).fork = false) (fuel : ℕ)
    (ans : SignalAnswers) (s : SignalState) (n : ℕ) (status : BitVec 32) :
    ReportsEnded timeoutCount children (callEnd ans s
        (attemptLoop timeoutCount (fun k => (children k).env) fuel (n + 1) 0 status)) ∧
      AllSeen timeoutCount ans children (n + 1) := by
  have hnone (t : Termination) : ¬ (children 0).EndsBeforeKill timeoutCount t := fun h =>
    absurd (hf.symm.trans h.1) (by decide)
  have htimes : ¬ (children 0).env.TimesOut timeoutCount := fun h =>
    absurd (hf.symm.trans h.1) (by decide)
  have hloop : attemptLoop timeoutCount (fun k => (children k).env) fuel (n + 1) 0 status =
      (.exited EXIT_FAILURE, [⟨.notForked, .never⟩]) := by
    simp only [attemptLoop, runAttempt, ChildRun.env, hf, ↓reduceIte]
  rw [hloop, callEnd, reportsEnded_cons, allSeen_succ]
  exact ⟨⟨fun t h => absurd h (hnone t), reportsEnded_nil _ _⟩,
    fun t h => absurd h (hnone t), fun h => absurd h htimes⟩

theorem reports_seen_iff (ht : 0 < timeoutCount) {fuel : ℕ} (hfuel : timeoutCount.toNat ≤ fuel)
    (hf : (children 0).fork = true) (hseen : (children 0).Seen timeoutCount) (ans : SignalAnswers)
    (s : SignalState) (n : ℕ) (status : BitVec 32) :
    ReportsEnded timeoutCount children (callEnd ans s
        (attemptLoop timeoutCount (fun k => (children k).env) fuel (n + 1) 0 status)) ↔
      AllSeen timeoutCount ans children (n + 1) := by
  have htimes : ¬ (children 0).env.TimesOut timeoutCount := fun h => (timesOut_iff ht hf).mp h hseen
  obtain ⟨m, t, hends, hbefore⟩ := endsBeforeKill_seen hf hseen
  have hloop : attemptLoop timeoutCount (fun k => (children k).env) fuel (n + 1) 0 status =
      (.done t.status, [⟨.ended t, .gone⟩]) := by
    simp only [attemptLoop, runAttempt_seen ht hf hseen hends hfuel]
  rw [hloop, callEnd, reportsEnded_cons, and_iff_left (reportsEnded_nil _ _), allSeen_succ,
    and_iff_left (fun h => absurd h htimes)]
  simp only [hbefore, forall_eq, hseen, true_and, true_or, and_true]
  exact leave_reports ans s t

theorem reports_unseen_iff (ht : 0 < timeoutCount) {fuel : ℕ} (hfuel : timeoutCount.toNat ≤ fuel)
    (hf : (children 0).fork = true) (hseen : ¬ (children 0).Seen timeoutCount) (s : SignalState)
    {n : ℕ} (hrest : ReportsEnded timeoutCount (fun k => children (k + 1)) (callEnd ans s
        (attemptLoop timeoutCount (fun k => (children (k + 1)).env) fuel n 0 failedStatus)) ↔
      AllSeen timeoutCount ans (fun k => children (k + 1)) n) (status : BitVec 32) :
    ReportsEnded timeoutCount children (callEnd ans s
        (attemptLoop timeoutCount (fun k => (children k).env) fuel (n + 1) 0 status)) ↔
      AllSeen timeoutCount ans children (n + 1) := by
  have htimes := (timesOut_iff ht hf).mpr hseen
  have hloop := @attemptLoop_retry timeoutCount (fun k => (children k).env) fuel 0 failedStatus
    _ (runAttempt_timesOut htimes hfuel) n status
  rw [callEnd] at hrest
  rw [hloop, attemptLoop_shift, callEnd, reportsEnded_cons, hrest, allSeen_succ]
  simp only [htimes, true_imp_iff, hseen, false_and, false_or]
  refine and_congr_left fun _ => forall_congr' fun t => imp_congr_right fun _ => ?_
  cases n with
  | zero =>
    simp only [attemptLoop, true_and, and_true]
    rw [leave_failed, Outcome.returned.injEq, eq_comm, verdict_failed]
  | succ n =>
    have hmore := (attemptLoop_shape timeoutCount (fun k => (children (k + 1)).env) fuel
      (n + 1) 0 failedStatus).nonempty
    simp only [hmore, false_and, Nat.succ_ne_zero, and_false]

theorem reports_loop (ht : 0 < timeoutCount) {fuel : ℕ} (hfuel : timeoutCount.toNat ≤ fuel)
    (ans : SignalAnswers) (s : SignalState) (children : ℕ → ChildRun) (n : ℕ) (status : BitVec 32) :
    ReportsEnded timeoutCount children (callEnd ans s
        (attemptLoop timeoutCount (fun k => (children k).env) fuel n 0 status)) ↔
      AllSeen timeoutCount ans children n := by
  induction n generalizing children status with
  | zero => exact iff_of_true (reportsEnded_nil _ _) fun k hk => absurd hk (Nat.not_lt_zero k)
  | succ n ih =>
    cases hf : (children 0).fork with
    | false =>
      have hboth := reports_unforked timeoutCount hf fuel ans s n status
      exact iff_of_true hboth.1 hboth.2
    | true =>
      by_cases hseen : (children 0).Seen timeoutCount
      · exact reports_seen_iff ht hfuel hf hseen ans s n status
      · exact reports_unseen_iff ht hfuel hf hseen s (ih _ failedStatus) status

end Loop

theorem reports_ended_iff (cmdStr : Option CString) {timeoutCount : ℤ} (ht : 0 < timeoutCount)
    (tryCount : ℤ) (ans : SignalAnswers) (children : ℕ → ChildRun) {fuel : ℕ}
    (hfuel : timeoutCount.toNat ≤ fuel) (s : SignalState) :
    ReportsEnded timeoutCount children
        (rlSystem100msEx cmdStr timeoutCount tryCount ans (fun k => (children k).env) fuel s) ↔
      (Enters cmdStr ans → AllSeen timeoutCount ans children (passes tryCount)) := by
  by_cases henter : Enters cmdStr ans
  · rw [rlSystem100msEx_enters henter, imp_iff_right henter]
    exact reports_loop ht hfuel ans s children (passes tryCount) _
  · obtain ⟨signals, hrun⟩ := rlSystem100msEx_not_enters henter timeoutCount tryCount
      (fun k => (children k).env) fuel s
    rw [hrun]
    exact iff_of_true (reportsEnded_nil _ _) fun h => absurd h henter

def exitsAt (m : ℕ) : ChildRun := ⟨true, some (m, .exited 0), fun _ => false, .delivered, .reaped⟩

theorem reports_ended_second_poll :
    ReportsEnded 2 (fun _ => exitsAt 2) (rlSystem100msEx (some listFiles) 2 0 .allSucceed
        (fun _ => (exitsAt 2).env) 2 plainSignals) ↔
      (Enters (some listFiles) .allSucceed →
        AllSeen 2 .allSucceed (fun _ => exitsAt 2) (passes 0)) :=
  reports_ended_iff (some listFiles) (by decide) 0 .allSucceed (fun _ => exitsAt 2) (by decide)
    plainSignals

theorem ended_in_last_sleep : ¬ ReportsEnded 1 (fun _ => exitsAt 1)
    (rlSystem100msEx (some listFiles) 1 1 .allSucceed (fun _ => (exitsAt 1).env) 1
      plainSignals) := by
  intro h
  have hfirst := (h 0 (by decide) (.exited 0) ⟨rfl, 1, by decide, rfl⟩).1
  exact absurd hfirst (by decide)

end RlLibrary.Command
