import RlLibrary.Command.Result

namespace RlLibrary.Command

open Foundation Str

def Attempt.Cleared (a : Attempt) : Prop := a.child = .never ∨ a.child = .gone

instance (a : Attempt) : Decidable a.Cleared := inferInstanceAs (Decidable (_ ∨ _))

def NoneLeft (run : Run) : Prop :=
  (∀ a ∈ run.attempts.dropLast, a.Cleared) ∧
    ∀ code, run.outcome = .returned code → (∃ a ∈ run.attempts, a.ending = .timedOut) →
      ∀ a ∈ run.attempts, a.Cleared

/-- The kill finds no process any more, or it is delivered and the wait for it is not
interrupted. -/
def AttemptEnv.KillWorks (a : AttemptEnv) : Prop :=
  a.kill = .noProcess ∨ (a.kill = .delivered ∧ a.reap ≠ .interrupted)

instance (a : AttemptEnv) : Decidable a.KillWorks := inferInstanceAs (Decidable (_ ∨ _))

theorem cleared_timedOut (a : AttemptEnv) :
    (⟨.timedOut, a.childAfterKill⟩ : Attempt).Cleared ↔ a.KillWorks := by
  obtain ⟨fork, poll, kill, reap⟩ := a
  cases kill <;> cases reap <;>
    simp [Attempt.Cleared, AttemptEnv.KillWorks, AttemptEnv.childAfterKill]

section Loop

variable {timeoutCount : ℤ} {env : ℕ → AttemptEnv}

def KillsWork (timeoutCount : ℤ) (env : ℕ → AttemptEnv) (n : ℕ) : Prop :=
  ∀ k < n, (∀ j ≤ k, (env j).TimesOut timeoutCount) → (env k).KillWorks

theorem KillsWork.timedOut {n m : ℕ} (h : KillsWork timeoutCount env n) (hm : m ≤ n)
    (hall : ∀ j, 0 ≤ j → j < 0 + m → (env j).TimesOut timeoutCount) :
    ∀ a ∈ timedOutAttempts env 0 m, a.Cleared := by
  intro a ha
  obtain ⟨j, _, hj, rfl⟩ := mem_timedOutAttempts ha
  apply (cleared_timedOut _).mpr
  apply h j (by omega)
  intro i hi
  exact hall i (Nat.zero_le i) (by omega)

theorem LastPass.cleared {a : AttemptEnv} {status : BitVec 32} {r : Attempt}
    (h : LastPass a (.done status) r) : r.Cleared := by
  cases h with
  | ended t _ => exact Or.inr rfl
  | lost _ => exact Or.inr rfl

theorem returned_done {ans : SignalAnswers} {s : SignalState} {exit : LoopExit} {code : ℤ}
    (h : (leave ans s exit).1 = .returned code) : ∃ status, exit = .done status := by
  cases exit with
  | done status => exact ⟨status, rfl⟩
  | exited c => cases h
  | waiting => cases h

theorem LoopShape.noneLeft {n : ℕ} {status : BitVec 32} {r : LoopExit × List Attempt}
    (hr : LoopShape timeoutCount env n 0 status r) (h : KillsWork timeoutCount env n)
    (ans : SignalAnswers) (s : SignalState) :
    NoneLeft ⟨(leave ans s r.1).1, (leave ans s r.1).2, r.2⟩ := by
  cases hr with
  | exhausted hall =>
    have hcleared := h.timedOut (Nat.le_refl n) hall
    refine ⟨fun b hb => ?_, fun code _ _ b hb => hcleared b hb⟩
    exact hcleared b (List.mem_of_mem_dropLast hb)
  | stopped m hm hall exit a hlast =>
    have hcleared := h.timedOut (Nat.le_of_lt hm) hall
    refine ⟨fun b hb => ?_, fun code hcode _ b hb => ?_⟩
    · rw [List.dropLast_concat] at hb
      exact hcleared b hb
    · obtain ⟨final, rfl⟩ := returned_done hcode
      rcases List.mem_append.mp hb with hb | hb
      · exact hcleared b hb
      · rw [List.mem_singleton.mp hb]
        exact hlast.cleared

theorem LoopShape.nonempty {n k : ℕ} {status : BitVec 32} {r : LoopExit × List Attempt}
    (h : LoopShape timeoutCount env (n + 1) k status r) : r.2 ≠ [] := by
  cases h with
  | exhausted hall =>
    rw [timedOutAttempts_succ]
    exact List.cons_ne_nil _ _
  | stopped m hm hall exit a hlast => exact List.append_ne_nil_of_right_ne_nil _ (List.cons_ne_nil a [])

theorem killsWork_of_noneLeft {n : ℕ} (ans : SignalAnswers) (s : SignalState) (status : BitVec 32)
    (h : ∀ fuel,
      let r := attemptLoop timeoutCount env fuel n 0 status
      NoneLeft ⟨(leave ans s r.1).1, (leave ans s r.1).2, r.2⟩) :
    KillsWork timeoutCount env n := by
  intro k hk htimes
  obtain ⟨rest, rfl⟩ : ∃ rest, n = rest + (k + 1) := ⟨n - (k + 1), by omega⟩
  have hloop := attemptLoop_timesOut env timeoutCount.toNat (Nat.le_refl _) k rest 0 status
    (fun j _ hj => htimes j (by omega))
  obtain ⟨hbefore, hafter⟩ := h timeoutCount.toNat
  simp only [hloop] at hbefore hafter
  apply (cleared_timedOut _).mp
  have hmem : (⟨.timedOut, (env k).childAfterKill⟩ : Attempt) ∈ timedOutAttempts env 0 (k + 1) := by
    rw [timedOutAttempts_concat, Nat.zero_add]
    exact List.mem_append_right _ (List.mem_singleton_self _)
  cases rest with
  | zero => exact hafter _ rfl ⟨_, List.mem_append_left _ hmem, rfl⟩ _ (List.mem_append_left _ hmem)
  | succ rest =>
    apply hbefore
    have hmore := (attemptLoop_shape timeoutCount env timeoutCount.toNat (rest + 1) (0 + (k + 1))
      failedStatus).nonempty
    rw [List.dropLast_append_of_ne_nil hmore]
    exact List.mem_append_left _ hmem

end Loop

theorem none_left_iff (cmdStr : Option CString) (timeoutCount tryCount : ℤ) (ans : SignalAnswers)
    (env : ℕ → AttemptEnv) (s : SignalState) :
    (∀ fuel, NoneLeft (rlSystem100msEx cmdStr timeoutCount tryCount ans env fuel s)) ↔
      (Enters cmdStr ans → KillsWork timeoutCount env (passes tryCount)) := by
  constructor
  · intro h henter
    apply killsWork_of_noneLeft ans s (BitVec.ofInt 32 RL_SUCCESS)
    intro fuel
    have hfuel := h fuel
    rw [rlSystem100msEx_enters henter] at hfuel
    exact hfuel
  · intro h fuel
    by_cases henter : Enters cmdStr ans
    · rw [rlSystem100msEx_enters henter]
      exact (attemptLoop_shape timeoutCount env fuel _ 0 _).noneLeft (h henter) ans s
    · obtain ⟨signals, hrun⟩ := rlSystem100msEx_not_enters henter timeoutCount tryCount env fuel s
      rw [hrun]
      simp [NoneLeft]

theorem refused_kill_leaves_child :
    ¬ NoneLeft (rlSystem100msEx (some listFiles) 1 1 .allSucceed
      (fun k => ⟨true, fun _ => if k = 0 then .running else .ended (.exited 0#8), .refused, .reaped⟩)
      1 plainSignals) := by
  intro h
  have hfirst := h.1 ⟨.timedOut, .running⟩ (by decide)
  exact absurd hfirst (by decide)

end RlLibrary.Command
