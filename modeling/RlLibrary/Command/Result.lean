import RlLibrary.Command.Attempts

namespace RlLibrary.Command

open Foundation Str

def SignalAnswers.allSucceed : SignalAnswers := ⟨true, true, true, true, true, true⟩

def Ending.verdict : Ending → ℤ
  | ended (.exited _) => RL_SUCCESS
  | ended (.killed signal _) => -signal.number
  | _ => RL_FAILED

def verdict (attempts : List Attempt) : ℤ :=
  match attempts.getLast? with
  | some a => a.ending.verdict
  | none => RL_FAILED

def children (attempts : List Attempt) : ℕ := attempts.countP (fun a => a.child ≠ .never)

def Returns (run : ℕ → Run) : Prop :=
  ∃ bound, ∀ fuel, bound ≤ fuel → ∃ code, (run fuel).outcome = .returned code

def TellsVerdict (run : ℕ → Run) : Prop :=
  ∀ fuel code, (run fuel).outcome = .returned code → code = verdict (run fuel).attempts

def RetriesBounded (tryCount : ℤ) (run : ℕ → Run) : Prop :=
  ∀ fuel, (∀ a ∈ (run fuel).attempts.dropLast, a.ending = .timedOut) ∧
    (children (run fuel).attempts : ℤ) ≤ max tryCount 0 + 1

theorem resultOf_ended (t : Termination) : resultOf t.status = (Ending.ended t).verdict := by
  cases t with
  | exited code =>
    rw [resultOf, WIFEXITED_exited]
    rfl
  | killed signal core =>
    have hsig := WTERMSIG_killed signal core
    have hbound := signal.bound
    have hint : (WTERMSIG (Termination.killed signal core).status).toInt = signal.number := by
      rw [BitVec.toInt_eq_toNat_of_lt (by omega), hsig]
    rw [resultOf, WIFEXITED_killed, WIFSIGNALED_killed, hint]
    rfl

theorem resultOf_failed : resultOf failedStatus = RL_FAILED := by decide

theorem restore_allSucceed (saved s : SignalState) (status : BitVec 32) :
    (restore .allSucceed saved status s).1 = resultOf status := rfl

section Loop

variable {timeoutCount : ℤ} {env : ℕ → AttemptEnv}

theorem verdict_concat (attempts : List Attempt) (a : Attempt) :
    verdict (attempts ++ [a]) = a.ending.verdict := by
  rw [verdict, List.getLast?_concat]

theorem timedOutAttempts_concat (env : ℕ → AttemptEnv) (k m : ℕ) :
    timedOutAttempts env k (m + 1) =
      timedOutAttempts env k m ++ [⟨.timedOut, (env (k + m)).childAfterKill⟩] := by
  rw [timedOutAttempts, List.range'_concat]
  simp [timedOutAttempts]

theorem LoopShape.verdict {n k : ℕ} {status final : BitVec 32} {r : LoopExit × List Attempt}
    (h : LoopShape timeoutCount env n k status r) (hn : 0 < n) (hr : r.1 = .done final) :
    resultOf final = verdict r.2 := by
  cases h with
  | exhausted hall =>
    obtain ⟨m, rfl⟩ : ∃ l, n = l + 1 := ⟨n - 1, by omega⟩
    simp only [Nat.succ_ne_zero, ↓reduceIte, LoopExit.done.injEq] at hr
    rw [timedOutAttempts_concat, verdict_concat, ← hr]
    exact resultOf_failed
  | stopped m hm hall exit a hlast =>
    rw [verdict_concat]
    cases hlast with
    | notForked _ => cases hr
    | ended t _ =>
      cases hr
      exact resultOf_ended t
    | lost _ =>
      cases hr
      exact resultOf_failed
    | waiting _ => cases hr

theorem LoopShape.retries {n k : ℕ} {status : BitVec 32} {r : LoopExit × List Attempt}
    (h : LoopShape timeoutCount env n k status r) :
    (∀ a ∈ r.2.dropLast, a.ending = .timedOut) ∧ r.2.length ≤ n := by
  have htimedOut (m : ℕ) : ∀ a ∈ timedOutAttempts env k m, a.ending = .timedOut := by
    intro a ha
    obtain ⟨j, _, _, rfl⟩ := mem_timedOutAttempts ha
    rfl
  have hlength (m : ℕ) : (timedOutAttempts env k m).length = m := by simp [timedOutAttempts]
  cases h with
  | exhausted hall =>
    exact ⟨fun a ha => htimedOut n a (List.mem_of_mem_dropLast ha), Nat.le_of_eq (hlength n)⟩
  | stopped m hm hall exit a hlast =>
    rw [List.dropLast_concat, List.length_append, hlength, List.length_singleton]
    exact ⟨htimedOut m, hm⟩

end Loop

/-- The call returns if no fork fails and every child that is waited for is bounded by a
time-out or ends; with `try_count` at least 0 the value is the verdict on the last child. -/
theorem system_result (cmdStr : Option CString) (hcmd : rlStrIsempty cmdStr = false)
    (timeoutCount tryCount : ℤ) (env : ℕ → AttemptEnv) (s : SignalState) :
    let run := fun fuel => rlSystem100msEx cmdStr timeoutCount tryCount .allSucceed env fuel s
    ((∀ k < passes tryCount, (∀ j < k, (env j).TimesOut timeoutCount) →
        (env k).fork = true ∧ (env k).Ends timeoutCount) → Returns run) ∧
      (0 ≤ tryCount → TellsVerdict run) ∧ RetriesBounded tryCount run := by
  intro run
  have henter : Enters cmdStr .allSucceed := ⟨hcmd, rfl, rfl, rfl⟩
  have hrun := fun fuel => rlSystem100msEx_enters henter timeoutCount tryCount env fuel s
  refine ⟨fun hall => ?_, fun htry fuel code hcode => ?_, fun fuel => ?_⟩
  · have hloop := attemptLoop_done timeoutCount env (passes tryCount) 0
      (BitVec.ofInt 32 RL_SUCCESS) (by
        intro m hm htimes
        rw [Nat.zero_add]
        exact hall m hm (fun j hj => htimes j (Nat.zero_le j) (by omega)))
    obtain ⟨bound, hbound⟩ := hloop
    refine ⟨bound, fun fuel hfuel => ?_⟩
    obtain ⟨final, hfinal⟩ := hbound fuel hfuel
    refine ⟨resultOf final, ?_⟩
    simp only [run, hrun fuel, hfinal, leave, restore_allSucceed]
  · simp only [run, hrun fuel] at hcode ⊢
    cases hexit : (attemptLoop timeoutCount env fuel (passes tryCount) 0
        (BitVec.ofInt 32 RL_SUCCESS)).1 with
    | exited c => simp [hexit, leave] at hcode
    | waiting => simp [hexit, leave] at hcode
    | done final =>
      simp only [hexit, leave, restore_allSucceed, Outcome.returned.injEq] at hcode
      rw [← hcode]
      apply (attemptLoop_shape timeoutCount env fuel (passes tryCount) 0 _).verdict _ hexit
      simp only [passes]
      omega
  · simp only [run, hrun fuel]
    obtain ⟨hdrop, hlength⟩ := (attemptLoop_shape timeoutCount env fuel (passes tryCount) 0
      (BitVec.ofInt 32 RL_SUCCESS)).retries
    refine ⟨hdrop, ?_⟩
    have hcount : children (attemptLoop timeoutCount env fuel (passes tryCount) 0
        (BitVec.ofInt 32 RL_SUCCESS)).2 ≤ passes tryCount :=
      Nat.le_trans List.countP_le_length hlength
    have hpasses : (passes tryCount : ℤ) ≤ max tryCount 0 + 1 := by
      simp only [passes]
      omega
    omega

section Examples

def plainSignals : SignalState := ⟨fun _ => ⟨.default, 0#32, ∅⟩, ∅⟩

def listFiles : CString := ⟨[108, 115], by decide⟩

def hangsOnce (k : ℕ) : AttemptEnv :=
  ⟨true, fun _ => if k = 0 then .running else .ended (.killed SIGINT false), .delivered, .reaped⟩

theorem system_result_killed :
    let run := fun fuel => rlSystem100msEx (some listFiles) 2 1 .allSucceed hangsOnce fuel plainSignals
    Returns run ∧ TellsVerdict run ∧ RetriesBounded 1 run := by
  intro run
  obtain ⟨hreturns, hverdict, hretries⟩ :=
    system_result (some listFiles) (by decide) 2 1 hangsOnce plainSignals
  have hends : ∀ k, (hangsOnce k).fork = true ∧ (hangsOnce k).Ends 2 :=
    fun k => ⟨rfl, Or.inl (by decide)⟩
  exact ⟨hreturns (fun k _ _ => hends k), hverdict (by decide), hretries⟩

theorem system_result_untrue :
    (¬ Returns fun fuel => rlSystem100msEx (some listFiles) 0 0 .allSucceed
        (fun _ => ⟨true, fun _ => .running, .delivered, .reaped⟩) fuel plainSignals) ∧
      (¬ Returns fun fuel => rlSystem100msEx (some listFiles) 2 0 .allSucceed
        (fun _ => ⟨false, fun _ => .running, .delivered, .reaped⟩) fuel plainSignals) ∧
      ¬ TellsVerdict fun fuel => rlSystem100msEx (some listFiles) 2 (-1) .allSucceed
        (fun _ => ⟨true, fun _ => .running, .delivered, .reaped⟩) fuel plainSignals := by
  refine ⟨fun ⟨bound, h⟩ => ?_, fun ⟨bound, h⟩ => ?_, fun h => ?_⟩
  · obtain ⟨code, hcode⟩ := h bound (Nat.le_refl bound)
    have hloop : attemptLoop 0 (fun _ => ⟨true, fun _ => .running, .delivered, .reaped⟩) bound
        (passes 0) 0 (BitVec.ofInt 32 RL_SUCCESS) = (.waiting, [⟨.waiting, .running⟩]) := by
      simp only [passes, sub_neg_eq_add, zero_add, Int.toNat_one, attemptLoop, runAttempt,
        Bool.true_eq_false, ↓reduceIte]
      rw [pollLoop_waits (by decide) (fun _ => Or.inl rfl)]
    have henter : Enters (some listFiles) .allSucceed := ⟨by decide, rfl, rfl, rfl⟩
    simp only [rlSystem100msEx_enters henter, hloop, leave] at hcode
    cases hcode
  · obtain ⟨code, hcode⟩ := h bound (Nat.le_refl bound)
    cases hcode
  · exact absurd (h 0 RL_SUCCESS rfl) (by decide)

end Examples

end RlLibrary.Command
