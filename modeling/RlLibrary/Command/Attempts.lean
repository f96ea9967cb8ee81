import RlLibrary.Command.Program

namespace RlLibrary.Command

open Foundation

def PollResult.Pending (r : PollResult) : Prop := r = .running ∨ r = .interrupted

instance (r : PollResult) : Decidable r.Pending := inferInstanceAs (Decidable (_ ∨ _))

def AttemptEnv.TimesOut (timeoutCount : ℤ) (a : AttemptEnv) : Prop :=
  a.fork = true ∧ 0 < timeoutCount ∧ ∀ i < timeoutCount.toNat, (a.poll i).Pending

instance (timeoutCount : ℤ) (a : AttemptEnv) : Decidable (a.TimesOut timeoutCount) :=
  inferInstanceAs (Decidable (_ ∧ _ ∧ _))

def AttemptEnv.Ends (timeoutCount : ℤ) (a : AttemptEnv) : Prop :=
  0 < timeoutCount ∨ ∃ i, ¬ (a.poll i).Pending

inductive PassCases (timeoutCount : ℤ) (a : AttemptEnv) : PassExit × Attempt → Prop where
  | notForked (hf : a.fork = false) : PassCases timeoutCount a (.exited, ⟨.notForked, .never⟩)
  | ended (t : Termination) (hf : a.fork = true) :
    PassCases timeoutCount a (.finished t.status, ⟨.ended t, .gone⟩)
  | lost (hf : a.fork = true) : PassCases timeoutCount a (.finished failedStatus, ⟨.lost, .gone⟩)
  | timedOut (ht : a.TimesOut timeoutCount) :
    PassCases timeoutCount a (.retry failedStatus, ⟨.timedOut, a.childAfterKill⟩)
  | waiting (hf : a.fork = true) : PassCases timeoutCount a (.waiting, ⟨.waiting, .running⟩)

section Poll

variable {timeoutCount : ℤ} {a : AttemptEnv}

theorem pollLoop_pending {k : ℕ} (h : (a.poll k).Pending) (fuel : ℕ) (leftTime : ℤ) :
    pollLoop timeoutCount a (fuel + 1) k leftTime =
      if timeoutCount > 0 then
        if leftTime - 1 ≤ 0 then (.retry failedStatus, ⟨.timedOut, a.childAfterKill⟩)
        else pollLoop timeoutCount a fuel (k + 1) (leftTime - 1)
      else pollLoop timeoutCount a fuel (k + 1) leftTime := by
  rcases h with h | h <;> simp [pollLoop, h]

theorem pollLoop_cases (hf : a.fork = true) (fuel k : ℕ) {leftTime : ℤ}
    (hpending : ∀ i < k, (a.poll i).Pending)
    (hleft : 0 < timeoutCount → 0 < leftTime ∧ leftTime = timeoutCount - k) :
    PassCases timeoutCount a (pollLoop timeoutCount a fuel k leftTime) := by
  -- on the fuel: all polls before the `k`-th were pending, `leftTime` counts what is left
  induction fuel generalizing k leftTime with
  | zero => exact .waiting hf
  | succ fuel ih =>
    by_cases hk : (a.poll k).Pending
    · have hpending' : ∀ i < k + 1, (a.poll i).Pending := by
        intro i hi
        rcases Nat.lt_succ_iff_lt_or_eq.mp hi with hi | rfl
        · exact hpending i hi
        · exact hk
      rw [pollLoop_pending hk]
      by_cases ht : timeoutCount > 0
      · obtain ⟨hpos, hle⟩ := hleft ht
        rw [if_pos ht]
        by_cases hlast : leftTime - 1 ≤ 0
        · rw [if_pos hlast]
          refine .timedOut ⟨hf, ht, fun i hi => hpending' i ?_⟩
          omega
        · rw [if_neg hlast]
          apply ih (k + 1) hpending'
          intro _
          push_cast
          omega
      · rw [if_neg ht]
        exact ih (k + 1) hpending' (fun h => absurd h ht)
    · cases hpoll : a.poll k with
      | ended t =>
        simp only [pollLoop, hpoll]
        exact .ended t hf
      | noChild =>
        simp only [pollLoop, hpoll]
        exact .lost hf
      | running => exact absurd (Or.inl hpoll) hk
      | interrupted => exact absurd (Or.inr hpoll) hk

theorem pollLoop_timesOut (ht : a.TimesOut timeoutCount) (n fuel k : ℕ) {leftTime : ℤ}
    (hleft : leftTime = n + 1) (hk : (k : ℤ) + leftTime = timeoutCount) (hfuel : n < fuel) :
    pollLoop timeoutCount a fuel k leftTime = (.retry failedStatus, ⟨.timedOut, a.childAfterKill⟩) := by
  induction n generalizing fuel k leftTime with
  | zero =>
    obtain ⟨fuel, rfl⟩ : ∃ m, fuel = m + 1 := ⟨fuel - 1, by omega⟩
    rw [pollLoop_pending (ht.2.2 k (by omega)), if_pos ht.2.1, if_pos (by omega)]
  | succ n ih =>
    obtain ⟨fuel, rfl⟩ : ∃ m, fuel = m + 1 := ⟨fuel - 1, by omega⟩
    have hmore : ¬ leftTime - 1 ≤ 0 := by
      push_cast at hleft
      omega
    rw [pollLoop_pending (ht.2.2 k (by omega)), if_pos ht.2.1, if_neg hmore]
    apply ih
    · push_cast at hleft
      omega
    · push_cast
      omega
    · omega

theorem pollLoop_stops (i fuel k : ℕ) (leftTime : ℤ) (hi : ¬ (a.poll (k + i)).Pending)
    (hfuel : i < fuel) : (pollLoop timeoutCount a fuel k leftTime).1 ≠ .waiting := by
  induction i generalizing fuel k leftTime with
  | zero =>
    obtain ⟨fuel, rfl⟩ : ∃ m, fuel = m + 1 := ⟨fuel - 1, by omega⟩
    cases hpoll : a.poll k with
    | ended t => simp [pollLoop, hpoll]
    | noChild => simp [pollLoop, hpoll]
    | running => exact absurd (Or.inl hpoll) hi
    | interrupted => exact absurd (Or.inr hpoll) hi
  | succ i ih =>
    obtain ⟨fuel, rfl⟩ : ∃ m, fuel = m + 1 := ⟨fuel - 1, by omega⟩
    have hnext : ¬ (a.poll (k + 1 + i)).Pending := by
      rwa [Nat.add_assoc, Nat.add_comm 1 i]
    by_cases hk : (a.poll k).Pending
    · rw [pollLoop_pending hk]
      by_cases ht : timeoutCount > 0
      · rw [if_pos ht]
        by_cases hlast : leftTime - 1 ≤ 0
        · simp [hlast]
        · rw [if_neg hlast]
          exact ih fuel (k + 1) _ hnext (by omega)
      · rw [if_neg ht]
        exact ih fuel (k + 1) _ hnext (by omega)
    · cases hpoll : a.poll k with
      | ended t => simp [pollLoop, hpoll]
      | noChild => simp [pollLoop, hpoll]
      | running => exact absurd (Or.inl hpoll) hk
      | interrupted => exact absurd (Or.inr hpoll) hk

theorem pollLoop_waits (ht : ¬ 0 < timeoutCount) (hall : ∀ i, (a.poll i).Pending) (fuel k : ℕ)
    (leftTime : ℤ) :
    pollLoop timeoutCount a fuel k leftTime = (.waiting, ⟨.waiting, .running⟩) := by
  induction fuel generalizing k with
  | zero => rfl
  | succ fuel ih =>
    rw [pollLoop_pending (hall k), if_neg ht]
    exact ih (k + 1)

end Poll

section Pass

variable {timeoutCount : ℤ} {a : AttemptEnv}

theorem runAttempt_cases (timeoutCount : ℤ) (a : AttemptEnv) (fuel : ℕ) :
    PassCases timeoutCount a (runAttempt timeoutCount a fuel) := by
  cases hf : a.fork with
  | false =>
    simp only [runAttempt, hf, ↓reduceIte]
    exact .notForked hf
  | true =>
    simp only [runAttempt, hf, Bool.true_eq_false, ↓reduceIte]
    apply pollLoop_cases hf fuel 0
    · intro i hi
      omega
    · intro ht
      push_cast
      omega

theorem runAttempt_timesOut (ht : a.TimesOut timeoutCount) {fuel : ℕ}
    (hfuel : timeoutCount.toNat ≤ fuel) :
    runAttempt timeoutCount a fuel = (.retry failedStatus, ⟨.timedOut, a.childAfterKill⟩) := by
  have hpos := ht.2.1
  simp only [runAttempt, ht.1, Bool.true_eq_false, ↓reduceIte]
  apply pollLoop_timesOut ht (timeoutCount.toNat - 1)
  · omega
  · push_cast
    omega
  · omega

theorem runAttempt_ends (hf : a.fork = true) (he : a.Ends timeoutCount) :
    ∃ bound, ∀ fuel, bound ≤ fuel → (runAttempt timeoutCount a fuel).1 ≠ .waiting := by
  by_cases ht : a.TimesOut timeoutCount
  · refine ⟨timeoutCount.toNat, fun fuel hfuel => ?_⟩
    rw [runAttempt_timesOut ht hfuel]
    simp
  · obtain ⟨i, hi⟩ : ∃ i, ¬ (a.poll i).Pending := by
      rcases he with hpos | he
      · by_contra hnone
        push Not at hnone
        exact ht ⟨hf, hpos, fun i _ => hnone i⟩
      · exact he
    refine ⟨i + 1, fun fuel hfuel => ?_⟩
    simp only [runAttempt, hf, Bool.true_eq_false, ↓reduceIte]
    apply pollLoop_stops i fuel 0
    · rwa [Nat.zero_add]
    · omega

end Pass

section Loop

variable {timeoutCount : ℤ} {env : ℕ → AttemptEnv}

def timedOutAttempts (env : ℕ → AttemptEnv) (k m : ℕ) : List Attempt :=
  (List.range' k m).map (fun j => ⟨.timedOut, (env j).childAfterKill⟩)

theorem timedOutAttempts_succ (env : ℕ → AttemptEnv) (k m : ℕ) :
    timedOutAttempts env k (m + 1) =
      ⟨.timedOut, (env k).childAfterKill⟩ :: timedOutAttempts env (k + 1) m := rfl

theorem mem_timedOutAttempts {k m : ℕ} {a : Attempt} (h : a ∈ timedOutAttempts env k m) :
    ∃ j, k ≤ j ∧ j < k + m ∧ a = ⟨.timedOut, (env j).childAfterKill⟩ := by
  obtain ⟨j, hj, rfl⟩ := List.mem_map.mp h
  obtain ⟨hle, hlt⟩ := List.mem_range'_1.mp hj
  exact ⟨j, hle, hlt, rfl⟩

inductive LastPass (a : AttemptEnv) : LoopExit → Attempt → Prop where
  | notForked (hf : a.fork = false) : LastPass a (.exited EXIT_FAILURE) ⟨.notForked, .never⟩
  | ended (t : Termination) (hf : a.fork = true) : LastPass a (.done t.status) ⟨.ended t, .gone⟩
  | lost (hf : a.fork = true) : LastPass a (.done failedStatus) ⟨.lost, .gone⟩
  | waiting (hf : a.fork = true) : LastPass a .waiting ⟨.waiting, .running⟩

theorem attemptLoop_retry {fuel k : ℕ} {status : BitVec 32} {a : Attempt}
    (h : runAttempt timeoutCount (env k) fuel = (.retry status, a)) (n : ℕ) (old : BitVec 32) :
    attemptLoop timeoutCount env fuel (n + 1) k old =
      ((attemptLoop timeoutCount env fuel n (k + 1) status).1,
        a :: (attemptLoop timeoutCount env fuel n (k + 1) status).2) := by
  simp only [attemptLoop, h]

inductive LoopShape (timeoutCount : ℤ) (env : ℕ → AttemptEnv) (n k : ℕ) (status : BitVec 32) :
    LoopExit × List Attempt → Prop where
  | exhausted (hall : ∀ j, k ≤ j → j < k + n → (env j).TimesOut timeoutCount) :
    LoopShape timeoutCount env n k status
      (.done (if n = 0 then status else failedStatus), timedOutAttempts env k n)
  | stopped (m : ℕ) (hm : m < n) (hall : ∀ j, k ≤ j → j < k + m → (env j).TimesOut timeoutCount)
    (exit : LoopExit) (a : Attempt) (hlast : LastPass (env (k + m)) exit a) :
    LoopShape timeoutCount env n k status (exit, timedOutAttempts env k m ++ [a])

theorem timesOut_cons {k m : ℕ} (hk : (env k).TimesOut timeoutCount)
    (hall : ∀ j, k + 1 ≤ j → j < k + 1 + m → (env j).TimesOut timeoutCount) :
    ∀ j, k ≤ j → j < k + (m + 1) → (env j).TimesOut timeoutCount := by
  intro j hle hlt
  by_cases hj : j = k
  · rw [hj]
    exact hk
  · exact hall j (by omega) (by omega)

theorem LoopShape.stop {k : ℕ} {exit : LoopExit} {a : Attempt} (hlast : LastPass (env k) exit a)
    (n : ℕ) (status : BitVec 32) : LoopShape timeoutCount env (n + 1) k status (exit, [a]) := by
  apply LoopShape.stopped 0 (Nat.succ_pos n) _ exit a hlast
  intro j hle hlt
  omega

theorem LoopShape.retry {n k : ℕ} {status : BitVec 32} {r : LoopExit × List Attempt}
    (hk : (env k).TimesOut timeoutCount) (h : LoopShape timeoutCount env n (k + 1) failedStatus r) :
    LoopShape timeoutCount env (n + 1) k status
      (r.1, ⟨.timedOut, (env k).childAfterKill⟩ :: r.2) := by
  cases h with
  | exhausted hall =>
    have hdone : LoopShape timeoutCount env (n + 1) k status
        (.done (if n + 1 = 0 then status else failedStatus), timedOutAttempts env k (n + 1)) :=
      .exhausted (timesOut_cons hk hall)
    rw [timedOutAttempts_succ, if_neg (Nat.succ_ne_zero n)] at hdone
    simpa only [ite_self] using hdone
  | stopped m hm hall exit a hlast =>
    have hindex : k + 1 + m = k + (m + 1) := by omega
    rw [hindex] at hlast
    exact .stopped (m + 1) (Nat.succ_lt_succ hm) (timesOut_cons hk hall) exit a hlast

theorem attemptLoop_shape (timeoutCount : ℤ) (env : ℕ → AttemptEnv) (fuel n k : ℕ)
    (status : BitVec 32) :
    LoopShape timeoutCount env n k status (attemptLoop timeoutCount env fuel n k status) := by
  induction n generalizing k status with
  | zero =>
    apply LoopShape.exhausted
    intro j hle hlt
    omega
  | succ n ih =>
    have hpass := runAttempt_cases timeoutCount (env k) fuel
    generalize hrun : runAttempt timeoutCount (env k) fuel = r at hpass
    cases hpass with
    | notForked hf =>
      simp only [attemptLoop, hrun]
      exact .stop (.notForked hf) n status
    | ended t hf =>
      simp only [attemptLoop, hrun]
      exact .stop (.ended t hf) n status
    | lost hf =>
      simp only [attemptLoop, hrun]
      exact .stop (.lost hf) n status
    | waiting hf =>
      simp only [attemptLoop, hrun]
      exact .stop (.waiting hf) n status
    | timedOut ht =>
      rw [attemptLoop_retry hrun]
      exact .retry ht (ih (k + 1) failedStatus)

theorem attemptLoop_timesOut (env : ℕ → AttemptEnv) (fuel : ℕ)
    (hfuel : timeoutCount.toNat ≤ fuel) (m n k : ℕ)
    (status : BitVec 32) (hall : ∀ j, k ≤ j → j < k + (m + 1) → (env j).TimesOut timeoutCount) :
    attemptLoop timeoutCount env fuel (n + (m + 1)) k status =
      ((attemptLoop timeoutCount env fuel n (k + (m + 1)) failedStatus).1,
        timedOutAttempts env k (m + 1) ++
          (attemptLoop timeoutCount env fuel n (k + (m + 1)) failedStatus).2) := by
  have hfirst := runAttempt_timesOut (hall k (Nat.le_refl k) (by omega)) hfuel
  induction m generalizing k status with
  | zero => exact attemptLoop_retry hfirst n status
  | succ m ih =>
    have hnext := runAttempt_timesOut (hall (k + 1) (by omega) (by omega)) hfuel
    have hrest := ih (k + 1) failedStatus (fun j hle hlt => hall j (by omega) (by omega)) hnext
    have hindex : k + 1 + (m + 1) = k + (m + 1 + 1) := by omega
    rw [hindex] at hrest
    rw [← Nat.add_assoc n (m + 1) 1, attemptLoop_retry hfirst, hrest, timedOutAttempts_succ]
    rfl

theorem attemptLoop_done (timeoutCount : ℤ) (env : ℕ → AttemptEnv) (n k : ℕ) (status : BitVec 32)
    (hall : ∀ m < n, (∀ j, k ≤ j → j < k + m → (env j).TimesOut timeoutCount) →
      (env (k + m)).fork = true ∧ (env (k + m)).Ends timeoutCount) :
    ∃ bound, ∀ fuel, bound ≤ fuel →
      ∃ final, (attemptLoop timeoutCount env fuel n k status).1 = .done final := by
  induction n generalizing k status with
  | zero => exact ⟨0, fun fuel _ => ⟨status, rfl⟩⟩
  | succ n ih =>
    obtain ⟨hf, hends⟩ := hall 0 (Nat.succ_pos n) (fun j hle hlt => by omega)
    obtain ⟨bound, hbound⟩ := runAttempt_ends hf hends
    by_cases ht : (env k).TimesOut timeoutCount
    · have hrest : ∀ m < n, (∀ j, k + 1 ≤ j → j < k + 1 + m → (env j).TimesOut timeoutCount) →
          (env (k + 1 + m)).fork = true ∧ (env (k + 1 + m)).Ends timeoutCount := by
        intro m hm htimes
        have hindex : k + 1 + m = k + (m + 1) := by omega
        rw [hindex]
        exact hall (m + 1) (by omega) (timesOut_cons ht htimes)
      obtain ⟨bound', hbound'⟩ := ih (k + 1) failedStatus hrest
      refine ⟨max timeoutCount.toNat bound', fun fuel hfuel => ?_⟩
      rw [attemptLoop_retry (runAttempt_timesOut ht (by omega))]
      exact hbound' fuel (by omega)
    · refine ⟨bound, fun fuel hfuel => ?_⟩
      have hnot := hbound fuel hfuel
      have hpass := runAttempt_cases timeoutCount (env k) fuel
      simp only [Nat.add_zero] at hf
      generalize hrun : runAttempt timeoutCount (env k) fuel = r at hpass hnot
      cases hpass with
      | notForked hf' =>
        rw [hf] at hf'
        cases hf'
      | ended t _ => exact ⟨t.status, by simp only [attemptLoop, hrun]⟩
      | lost _ => exact ⟨failedStatus, by simp only [attemptLoop, hrun]⟩
      | timedOut ht' => exact absurd ht' ht
      | waiting _ => exact absurd rfl hnot

end Loop

end RlLibrary.Command
