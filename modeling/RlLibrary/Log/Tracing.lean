import RlLibrary.Foundation.Resources
import RlLibrary.Log.Descriptors

namespace RlLibrary.Log

open Foundation Traced

inductive Handle where
  | comm
  | log (fd : ℕ)
  deriving DecidableEq, Repr

def tracedWriteLoop (fd : ℕ) (writes : Writes) (i : ℕ) (rest file : List Byte) :
    Traced Handle (ℤ × List Byte) :=
  if _h : rest = [] then pure (RL_SUCCESS, file) else do
  use (.log fd)
  match _hn : writes.answer i rest.length with
  | none => pure (RL_FAILED, file)
  | some n => tracedWriteLoop fd writes (i + 1) (rest.drop n) (file ++ rest.take n)
termination_by rest.length
decreasing_by
  have hpos := List.length_pos_iff.mpr _h
  have hlawful := writes.lawful i _ n hpos _hn
  rw [List.length_drop]
  omega

def tracedRotate (fd : ℕ) (env : WriteEnv) (file : List Byte) : Traced Handle (Bool × List Byte) :=
  match env.stat with
  | none => pure (true, file)
  | some size =>
    if size > RL_LOG_FILE_SIZE then do
      use (.log fd)
      if env.ftruncate = false then pure (false, file) else do
      use (.log fd)
      pure (env.lseek, [])
    else pure (true, file)

def tracedWrite (level : LogLevel) (message : CString) (env : WriteEnv) (w : LogWorld) :
    Traced Handle (ℤ × LogWorld) :=
  match w.logFileFd with
  | none => pure (RL_FAILED, w)
  | some fd =>
    let line := formatLine w env level message
    if env.snprintf = false then pure (RL_FAILED, w) else do
    let rotated ← tracedRotate fd env w.file
    if rotated.1 = false then pure (RL_FAILED, { w with file := rotated.2 }) else do
    let written ← tracedWriteLoop fd env.writes 0 ((printed logBufSize line).take line.length) rotated.2
    pure (written.1, { w with file := written.2 })

def tracedLog (m : LogMessage) (w : LogWorld) : Traced Handle (ℤ × LogWorld) :=
  if w.curRlLogLevel.code < m.level.code then pure (RL_FAILED, w) else
  match m.message with
  | none => pure (RL_FAILED, w)
  | some buf =>
    if buf.length ≥ RL_LOG_BUF_SIZE then pure (RL_FAILED, w) else do
    let written ← tracedWrite m.level (CString.ofBuffer buf) m.env w
    if written.1 ≠ RL_SUCCESS then pure (RL_FAILED, written.2) else pure (RL_SUCCESS, written.2)

def tracedInit (level : LogLevel) (env : InitEnv) (w : LogWorld) : Traced Handle (ℤ × LogWorld) :=
  let w := { w with curRlLogLevel := level }
  if env.fopen = false then pure (RL_FAILED, w) else do
  acquire .comm
  use .comm
  match env.fgets with
  | .eof => do
    release .comm
    pure (RL_FAILED, w)
  | .error left => do
    release .comm
    pure (RL_FAILED, { w with procName := left })
  | .line bytes => do
    release .comm
    let w := { w with procName := readName bytes, pidNow := env.getpid, logFileFd := env.openLog }
    match env.openLog with
    | none => pure (RL_FAILED, w)
    | some fd => do
      acquire (.log fd)
      pure (RL_SUCCESS, { w with opened := fd :: w.opened })

def tracedDeint (env : DeinitEnv) (w : LogWorld) : Traced Handle (ℤ × LogWorld) :=
  match w.logFileFd with
  | none => pure (RL_FAILED, w)
  | some fd => do
    use (.log fd)
    if env.fsync = false then pure (RL_FAILED, w) else do
    release (.log fd)
    let w := { w with opened := w.opened.erase fd }
    if env.close = false then pure (RL_FAILED, w) else
    pure (RL_SUCCESS, { w with logFileFd := none })

/-- A call with what it returns; the `rl_log_*` functions themselves return nothing. -/
def LogWorld.answer (w : LogWorld) : LogCall → ℤ × LogWorld
  | .init level env => rlLogInit level env w
  | .deinit env => rlLogDeint env w
  | .log m => rlLogGeneric m.level m.message m.env w

def LogWorld.traced (w : LogWorld) : LogCall → Traced Handle (ℤ × LogWorld)
  | .init level env => tracedInit level env w
  | .deinit env => tracedDeint env w
  | .log m => tracedLog m w

section Value

variable {w : LogWorld}

theorem tracedWriteLoop_value (fd : ℕ) (writes : Writes) (i : ℕ) (rest file : List Byte) :
    (tracedWriteLoop fd writes i rest file).value = writeLoop writes i rest file := by
  fun_induction writeLoop writes i rest file with
  | case1 i file => rw [tracedWriteLoop, dif_pos rfl]; rfl
  | case2 i rest file h hn =>
    rw [tracedWriteLoop, dif_neg h, bind_value]
    split
    · rfl
    · rename_i n hsome
      rw [hn] at hsome
      cases hsome
  | case3 i rest file h n hn ih =>
    rw [tracedWriteLoop, dif_neg h, bind_value]
    split
    · rename_i hnone
      rw [hn] at hnone
      cases hnone
    · rename_i m hsome
      rw [hn] at hsome
      cases hsome
      exact ih

theorem tracedRotate_value (fd : ℕ) (env : WriteEnv) (file : List Byte) :
    (tracedRotate fd env file).value = rotate env file := by
  rw [tracedRotate, rotate]
  cases env.stat with
  | none => rfl
  | some size =>
    dsimp only
    split_ifs <;> rfl

theorem tracedWrite_value (level : LogLevel) (message : CString) (env : WriteEnv) (w : LogWorld) :
    (tracedWrite level message env w).value = writeRlLog level message env w := by
  cases hfd : w.logFileFd with
  | none => simp only [tracedWrite, writeRlLog, hfd, ↓reduceIte]; rfl
  | some fd =>
    simp only [tracedWrite, writeRlLog, hfd, reduceCtorEq, ↓reduceIte]
    split_ifs with hprinted hrotated
    · rfl
    · rw [bind_value, tracedRotate_value, if_pos hrotated]
      rfl
    · rw [bind_value, tracedRotate_value, if_neg hrotated, bind_value, tracedWriteLoop_value]
      rfl

theorem tracedLog_value (m : LogMessage) (w : LogWorld) :
    (tracedLog m w).value = rlLogGeneric m.level m.message m.env w := by
  simp only [tracedLog, rlLogGeneric]
  split_ifs
  · rfl
  · cases m.message with
    | none => rfl
    | some buf =>
      dsimp only
      split_ifs with hlong hfailed
      · rfl
      · rw [bind_value, tracedWrite_value, if_pos hfailed]
        rfl
      · rw [bind_value, tracedWrite_value, if_neg hfailed]
        rfl

theorem tracedInit_value (level : LogLevel) (env : InitEnv) (w : LogWorld) :
    (tracedInit level env w).value = rlLogInit level env w := by
  simp only [tracedInit, rlLogInit]
  split_ifs
  · rfl
  · rw [bind_value, bind_value]
    cases env.fgets with
    | eof => rfl
    | error left => rfl
    | line bytes =>
      rw [bind_value]
      cases env.openLog <;> rfl

theorem tracedDeint_value (env : DeinitEnv) (w : LogWorld) :
    (tracedDeint env w).value = rlLogDeint env w := by
  rw [tracedDeint, rlLogDeint]
  cases w.logFileFd with
  | none => rfl
  | some fd =>
    rw [bind_value]
    dsimp only
    split_ifs
    · rfl
    · rw [bind_value]
      rfl
    · rw [bind_value]
      rfl

theorem traced_value (w : LogWorld) (c : LogCall) : (w.traced c).value = w.answer c := by
  cases c with
  | init level env => exact tracedInit_value level env w
  | deinit env => exact tracedDeint_value env w
  | log m => exact tracedLog_value m w

end Value

def Named (w : LogWorld) : Prop := ∀ fd, w.logFileFd = some fd → fd ∈ w.opened

/-- `close` does not fail after a successful `fsync`. -/
def LogCall.Closes (w : LogWorld) : LogCall → Prop
  | .deinit env => w.logFileFd = none ∨ env.fsync = false ∨ env.close = true
  | _ => True

section Descriptors

variable {w : LogWorld} {held : List Handle} {fd : ℕ}

theorem keeps_tracedWriteLoop (hfd : .log fd ∈ held) (writes : Writes) (i : ℕ) (rest file : List Byte) :
    (tracedWriteLoop fd writes i rest file).Keeps held held := by
  fun_induction writeLoop writes i rest file with
  | case1 i file =>
    rw [tracedWriteLoop, dif_pos rfl]
    exact keeps_pure _ _
  | case2 i rest file h hn =>
    rw [tracedWriteLoop, dif_neg h]
    apply Keeps.use hfd
    split
    · exact keeps_pure _ _
    · rename_i n hsome
      rw [hn] at hsome
      cases hsome
  | case3 i rest file h n hn ih =>
    rw [tracedWriteLoop, dif_neg h]
    apply Keeps.use hfd
    split
    · rename_i hnone
      rw [hn] at hnone
      cases hnone
    · rename_i m hsome
      rw [hn] at hsome
      cases hsome
      exact ih

theorem keeps_tracedRotate (hfd : .log fd ∈ held) (env : WriteEnv) (file : List Byte) :
    (tracedRotate fd env file).Keeps held held := by
  rw [tracedRotate]
  cases env.stat with
  | none => exact keeps_pure _ _
  | some size =>
    refine Keeps.ite ?_ (keeps_pure _ _)
    apply Keeps.use hfd
    apply Keeps.ite (keeps_pure _ _)
    exact (keeps_pure _ _).use hfd

theorem keeps_tracedWrite (hnamed : ∀ fd, w.logFileFd = some fd → .log fd ∈ held) (level : LogLevel)
    (message : CString) (env : WriteEnv) : (tracedWrite level message env w).Keeps held held := by
  rw [tracedWrite]
  cases hfd : w.logFileFd with
  | none => exact keeps_pure _ _
  | some fd =>
    have hheld := hnamed fd hfd
    apply Keeps.ite (keeps_pure _ _)
    apply Keeps.bind held (keeps_tracedRotate hheld env w.file)
    apply Keeps.ite (keeps_pure _ _)
    exact (keeps_tracedWriteLoop hheld _ _ _ _).bind held (keeps_pure _ _)

theorem Named.listed (h : Named w) : ∀ fd, w.logFileFd = some fd → Handle.log fd ∈ w.opened.map .log :=
  fun fd hfd => List.mem_map_of_mem (h fd hfd)

theorem log_injective : Function.Injective Handle.log := fun _ _ h => Handle.log.inj h

theorem keeps_tracedLog (h : Named w) (m : LogMessage) :
    (tracedLog m w).Keeps (w.opened.map .log) (w.opened.map .log) := by
  apply Keeps.ite (keeps_pure _ _)
  cases m.message with
  | none => exact keeps_pure _ _
  | some buf =>
    apply Keeps.ite (keeps_pure _ _)
    apply Keeps.bind _ (keeps_tracedWrite h.listed _ _ _)
    exact Keeps.ite (keeps_pure _ _) (keeps_pure _ _)

theorem keeps_tracedInit (level : LogLevel) (env : InitEnv) (w : LogWorld) :
    (tracedInit level env w).Keeps (w.opened.map .log) ((rlLogInit level env w).2.opened.map .log) := by
  cases hopen : env.fopen with
  | false => simp only [tracedInit, rlLogInit, hopen, ↓reduceIte, keeps_pure]
  | true =>
    have hreleased : ∀ {α : Type} {x : Traced Handle α} {after : List Handle},
        x.Keeps (w.opened.map .log) after →
        (release Handle.comm >>= fun _ => x).Keeps (.comm :: w.opened.map .log) after := by
      intro α x after hx
      apply Keeps.release List.mem_cons_self
      rwa [List.erase_cons_head]
    simp only [tracedInit, rlLogInit, hopen, Bool.true_eq_false, ↓reduceIte]
    apply Keeps.acquire
    apply Keeps.use List.mem_cons_self
    cases env.fgets with
    | eof => exact hreleased (keeps_pure _ _)
    | error left => exact hreleased (keeps_pure _ _)
    | line bytes =>
      apply hreleased
      cases env.openLog with
      | none => exact keeps_pure _ _
      | some fd => exact (keeps_pure _ _).acquire

theorem keeps_tracedDeint (h : Named w) (env : DeinitEnv) :
    (tracedDeint env w).Keeps (w.opened.map .log) ((rlLogDeint env w).2.opened.map .log) := by
  cases hfd : w.logFileFd with
  | none => simp only [tracedDeint, rlLogDeint, hfd, keeps_pure]
  | some fd =>
    have hheld := h.listed fd hfd
    simp only [tracedDeint, rlLogDeint, hfd]
    apply Keeps.use hheld
    split_ifs
    · exact keeps_pure _ _
    · apply Keeps.release hheld
      rw [← List.map_erase log_injective]
      exact keeps_pure _ _
    · apply Keeps.release hheld
      rw [← List.map_erase log_injective]
      exact keeps_pure _ _

theorem traced_keeps (h : Named w) (c : LogCall) :
    (w.traced c).Keeps (w.opened.map .log) ((w.answer c).2.opened.map .log) := by
  cases c with
  | init level env => exact keeps_tracedInit level env w
  | deinit env => exact keeps_tracedDeint h env
  | log m =>
    have hsame := (rlLogGeneric_frame m.level m.message m.env w).2
    rw [LogWorld.answer, hsame]
    exact keeps_tracedLog h m

theorem rlLogInit_cases (level : LogLevel) (env : InitEnv) (w : LogWorld) :
    let answer := rlLogInit level env w
    (answer.1 = RL_FAILED ∧ (answer.2.logFileFd = w.logFileFd ∨ answer.2.logFileFd = none) ∧
        answer.2.opened = w.opened) ∨
      ∃ fd, answer.1 = RL_SUCCESS ∧ answer.2.logFileFd = some fd ∧ answer.2.opened = fd :: w.opened := by
  cases hopen : env.fopen with
  | false => simp [rlLogInit, hopen]
  | true =>
    cases hread : env.fgets with
    | eof => simp [rlLogInit, hopen, hread]
    | error left => simp [rlLogInit, hopen, hread]
    | line bytes =>
      cases hlog : env.openLog with
      | none => simp [rlLogInit, hopen, hread, hlog]
      | some fd => simp [rlLogInit, hopen, hread, hlog]

theorem rlLogDeint_cases {env : DeinitEnv} (hc : LogCall.Closes w (.deinit env)) :
    let answer := rlLogDeint env w
    answer = (RL_FAILED, w) ∨
      ∃ fd, w.logFileFd = some fd ∧ answer.1 = RL_SUCCESS ∧ answer.2.logFileFd = none ∧
        answer.2.opened = w.opened.erase fd := by
  cases hfd : w.logFileFd with
  | none => exact Or.inl (by simp only [rlLogDeint, hfd])
  | some fd =>
    cases hsync : env.fsync with
    | false => exact Or.inl (by simp only [rlLogDeint, hfd, hsync, ↓reduceIte])
    | true =>
      have hclose : env.close = true := by simpa [LogCall.Closes, hfd, hsync] using hc
      exact Or.inr ⟨fd, rfl, by simp [rlLogDeint, hfd, hsync, hclose]⟩

theorem named_answer (h : Named w) {c : LogCall} (hc : c.Closes w) : Named (w.answer c).2 := by
  cases c with
  | init level env =>
    rcases rlLogInit_cases level env w with ⟨_, hfd | hfd, hopened⟩ | ⟨new, _, hfd, hopened⟩
    · rw [LogWorld.answer, Named, hfd, hopened]
      exact h
    · rw [LogWorld.answer, Named, hfd]
      exact nofun
    · rw [LogWorld.answer, Named, hfd, hopened]
      rintro fd ⟨⟩
      exact List.mem_cons_self
  | deinit env =>
    rcases rlLogDeint_cases hc with hsame | ⟨_, _, _, hfd, _⟩
    · rw [LogWorld.answer, hsame]
      exact h
    · rw [LogWorld.answer, Named, hfd]
      exact nofun
  | log m =>
    obtain ⟨hfd, hopened⟩ := rlLogGeneric_frame m.level m.message m.env w
    rw [LogWorld.answer, Named, hfd, hopened]
    exact h

def logChange (w : LogWorld) : LogCall → ℤ
  | .init level env => if (rlLogInit level env w).1 = RL_SUCCESS then 1 else 0
  | .deinit env => if (rlLogDeint env w).1 = RL_SUCCESS then -1 else 0
  | .log _ => 0

theorem opened_answer (h : Named w) {c : LogCall} (hc : c.Closes w) :
    ((w.answer c).2.opened.length : ℤ) = w.opened.length + logChange w c := by
  cases c with
  | init level env =>
    rcases rlLogInit_cases level env w with ⟨hcode, _, hopened⟩ | ⟨fd, hcode, _, hopened⟩
    · rw [LogWorld.answer, logChange, hopened, hcode, if_neg failed_ne_success, Int.add_zero]
    · rw [LogWorld.answer, logChange, hopened, hcode, if_pos rfl, List.length_cons, Int.natCast_succ]
  | deinit env =>
    rcases rlLogDeint_cases hc with hsame | ⟨fd, hfd, hcode, _, hopened⟩
    · rw [LogWorld.answer, logChange, hsame, if_neg failed_ne_success, Int.add_zero]
    · have hmem := h fd hfd
      have hpos := List.length_pos_of_mem hmem
      rw [LogWorld.answer, logChange, hopened, hcode, if_pos rfl, List.length_erase_of_mem hmem]
      omega
  | log m =>
    have hsame := (rlLogGeneric_frame m.level m.message m.env w).2
    rw [LogWorld.answer, logChange, hsame, Int.add_zero]

end Descriptors

end RlLibrary.Log
