import RlLibrary.Foundation.Lines
import RlLibrary.Log.Descriptors
import RlLibrary.Log.Writing

namespace RlLibrary.Log

open Foundation

namespace LogMessage

structure Plain (m : LogMessage) : Prop where
  level : m.level ≠ .normal
  message : ∀ buf, m.message = some buf → 10 ∉ (CString.ofBuffer buf).bytes

def told (m : LogMessage) : ℕ × ℕ × ℕ × BitVec 32 × LogLevel × Option (List Byte) :=
  (m.env.clock.tmHour, m.env.clock.tmMin, m.env.clock.tmSec, m.env.tid, m.level,
    m.message.map fun buf => (CString.ofBuffer buf).bytes)

end LogMessage

def steadyLogger : Machine LogWorld LogMessage where
  enabled w m := m.Plain ∧ (rlLogGeneric m.level m.message m.env w).1 = RL_SUCCESS ∧
    (m.env.stat = none ∨ m.env.stat = some w.file.length ∧ ¬ Exceeds w)
  next w m := rlLog m.level m.message m.env w

section Line

variable {w : LogWorld} {m m' : LogMessage}

theorem lineOf_eq (hm : m.Plain) {buf : List Byte} (hbuf : m.message = some buf) : lineOf w m =
    signedDecimal 2 m.env.clock.tmHour.val ++ 58 :: (signedDecimal 2 m.env.clock.tmMin.val ++ 58 ::
      (signedDecimal 2 m.env.clock.tmSec.val ++ 45 :: ((w.procName.bytes ++ text "-p" ++
        signedDecimal 0 w.pidNow.toInt ++ text "-t") ++ (signedDecimal 0 m.env.tid.toInt ++ 32 ::
          (text (levelName m.level) ++ 58 :: ((CString.ofBuffer buf).bytes ++ [10])))))) := by
  simp only [lineOf, hbuf, formatLine, hm.level, ne_eq, not_false_iff, ↓reduceIte, List.append_assoc]
  rfl

theorem levelName_colon (level : LogLevel) : 58 ∉ text (levelName level) ∧ 10 ∉ text (levelName level) := by
  cases level <;> decide

theorem levelName_injective {level level' : LogLevel} (h : level ≠ .normal) (h' : level' ≠ .normal)
    (hname : text (levelName level) = text (levelName level')) : level = level' := by
  revert h h' hname
  cases level <;> cases level' <;> decide

theorem padded_stop {b : Byte} (hdigit : ¬ digit b < 10) {width n : ℕ} : b ∉ signedDecimal width n :=
  fun h => hdigit (padded_digits h)

theorem padded_injective {width n n' : ℕ} (h : signedDecimal width n = signedDecimal width n') : n = n' := by
  rw [← value_padded width n, h, value_padded]

theorem lineOf_injective (hm : m.Plain) (hm' : m'.Plain) (hbuf : m.message ≠ none)
    (hbuf' : m'.message ≠ none) (h : lineOf w m = lineOf w m') : m.told = m'.told := by
  obtain ⟨buf, hbuf⟩ := Option.ne_none_iff_exists'.mp hbuf
  obtain ⟨buf', hbuf'⟩ := Option.ne_none_iff_exists'.mp hbuf'
  have hcolon (n : ℕ) : (58 : Byte) ∉ signedDecimal 2 n := padded_stop (by decide)
  have hdash (n : ℕ) : (45 : Byte) ∉ signedDecimal 2 n := padded_stop (by decide)
  have hblank (i : ℤ) : (32 : Byte) ∉ signedDecimal 0 i := signedDecimal_stop (by decide) (by decide)
  rw [lineOf_eq hm hbuf, lineOf_eq hm' hbuf'] at h
  obtain ⟨hhour, h⟩ := cut_first (hcolon _) (hcolon _) h
  obtain ⟨hmin, h⟩ := cut_first (hcolon _) (hcolon _) h
  obtain ⟨hsec, h⟩ := cut_first (hdash _) (hdash _) h
  obtain ⟨htid, h⟩ := cut_first (hblank _) (hblank _) (List.append_cancel_left h)
  obtain ⟨hlevel, h⟩ := cut_first (levelName_colon _).1 (levelName_colon _).1 h
  have hmessage := List.append_cancel_right h
  simp only [LogMessage.told, hbuf, hbuf', Option.map_some, padded_injective hhour, padded_injective hmin,
    padded_injective hsec, BitVec.toInt_inj.mp (signedDecimal_injective htid),
    levelName_injective hm.level hm'.level hlevel, hmessage]

theorem lineOf_isLine (hname : 10 ∉ w.procName.bytes) (hm : m.Plain) (hbuf : m.message ≠ none) :
    IsLine 10 (lineOf w m) := by
  obtain ⟨buf, hbuf⟩ := Option.ne_none_iff_exists'.mp hbuf
  have hpadded (n : ℕ) : (10 : Byte) ∉ signedDecimal 2 n := padded_stop (by decide)
  have hnumber (i : ℤ) : (10 : Byte) ∉ signedDecimal 0 i := signedDecimal_stop (by decide) (by decide)
  have htext : ∀ sep ∈ ["-p", "-t"], 10 ∉ text sep := by decide
  refine ⟨signedDecimal 2 m.env.clock.tmHour.val ++ 58 :: (signedDecimal 2 m.env.clock.tmMin.val ++ 58 ::
    (signedDecimal 2 m.env.clock.tmSec.val ++ 45 :: ((w.procName.bytes ++ text "-p" ++
      signedDecimal 0 w.pidNow.toInt ++ text "-t") ++ (signedDecimal 0 m.env.tid.toInt ++ 32 ::
        (text (levelName m.level) ++ 58 :: (CString.ofBuffer buf).bytes))))), ?_, ?_⟩
  · simp [hpadded, hnumber, hname, (levelName_colon m.level).2, hm.message buf hbuf,
      htext "-p" (by decide), htext "-t" (by decide)]
  · rw [lineOf_eq hm hbuf]
    simp only [List.append_assoc, List.cons_append]

end Line

section Runs

variable {w : LogWorld} {m : LogMessage} {ms ms' : List LogMessage}

theorem writeRlLog_same (level : LogLevel) (message : CString) (env : WriteEnv) (w : LogWorld) :
    ∃ file, (writeRlLog level message env w).2 = { w with file := file } := by
  simp only [writeRlLog]
  split_ifs <;> exact ⟨_, rfl⟩

theorem rlLogGeneric_same (level : LogLevel) (message : Option (List Byte)) (env : WriteEnv)
    (w : LogWorld) : ∃ file, (rlLogGeneric level message env w).2 = { w with file := file } := by
  cases message with
  | none =>
    simp only [rlLogGeneric]
    split_ifs <;> exact ⟨_, rfl⟩
  | some buf =>
    have hsame := writeRlLog_same level (CString.ofBuffer buf) env w
    simp only [rlLogGeneric]
    split_ifs
    · exact ⟨_, rfl⟩
    · exact ⟨_, rfl⟩
    · exact hsame
    · exact hsame

theorem lineOf_same (file : List Byte) (m : LogMessage) : lineOf { w with file := file } m = lineOf w m := by
  rfl

theorem message_of_success (h : (rlLogGeneric m.level m.message m.env w).1 = RL_SUCCESS) :
    m.message ≠ none := by
  intro hnone
  rw [hnone, rlLogGeneric] at h
  split_ifs at h
  · exact failed_ne_success h
  · exact failed_ne_success h

theorem steady_next (h : steadyLogger.enabled w m) :
    steadyLogger.next w m = { w with file := w.file ++ lineOf w m } := by
  obtain ⟨_, hsuccess, hstat⟩ := h
  have htells : StatTells w m := by
    intro size hsize
    rcases hstat with hnone | ⟨hlength, _⟩
    · rw [hnone] at hsize
      cases hsize
    · rw [hlength, Option.some_inj] at hsize
      exact hsize.symm
  have hkept : ¬ (m.env.stat ≠ none ∧ Exceeds w) := by
    rintro ⟨hsome, hexceeds⟩
    rcases hstat with hnone | ⟨_, hsmall⟩
    · exact hsome hnone
    · exact hsmall hexceeds
  have hfile := (rlLogGeneric_writing htells).succeeded hsuccess
  rw [if_neg hkept] at hfile
  obtain ⟨file, hsame⟩ := rlLogGeneric_same m.level m.message m.env w
  change rlLog m.level m.message m.env w = _
  rw [rlLog_eq, hsame, ← hfile, hsame]

theorem steady_exec (h : steadyLogger.Valid w ms) :
    steadyLogger.exec w ms = { w with file := w.file ++ (ms.map (lineOf w)).flatten } := by
  induction ms generalizing w with
  | nil =>
    rw [List.map_nil, List.flatten_nil, List.append_nil]
    rfl
  | cons m ms ih =>
    obtain ⟨hm, hms⟩ := h
    rw [steady_next hm] at hms
    have hlines : ms.map (lineOf { w with file := w.file ++ lineOf w m }) = ms.map (lineOf w) :=
      List.map_congr_left fun m' _ => lineOf_same _ m'
    rw [Machine.exec_cons, steady_next hm, ih hms, hlines, List.map_cons, List.flatten_cons,
      List.append_assoc]

theorem steady_mem (h : steadyLogger.Valid w ms) : ∀ m ∈ ms, m.Plain ∧ m.message ≠ none := by
  induction ms generalizing w with
  | nil => exact fun m hm => absurd hm List.not_mem_nil
  | cons m ms ih =>
    intro m' hm'
    rcases List.mem_cons.mp hm' with rfl | hm'
    · exact ⟨h.1.1, message_of_success h.1.2.1⟩
    · exact ih h.2 m' hm'

theorem told_of_lines (hms : ∀ m ∈ ms, m.Plain ∧ m.message ≠ none)
    (hms' : ∀ m ∈ ms', m.Plain ∧ m.message ≠ none) (h : ms.map (lineOf w) = ms'.map (lineOf w)) :
    ms.map LogMessage.told = ms'.map LogMessage.told := by
  induction ms generalizing ms' with
  | nil =>
    cases ms' with
    | nil => rfl
    | cons m ms' => cases h
  | cons m ms ih =>
    cases ms' with
    | nil => cases h
    | cons m' ms' =>
      rw [List.map_cons, List.map_cons, List.cons_eq_cons] at h
      have hm := hms m List.mem_cons_self
      have hm' := hms' m' List.mem_cons_self
      rw [List.map_cons, List.map_cons, lineOf_injective hm.1 hm'.1 hm.2 hm'.2 h.1,
        ih (fun m hm => hms m (List.mem_cons_of_mem _ hm)) (fun m hm => hms' m (List.mem_cons_of_mem _ hm)) h.2]

theorem init_name {level : LogLevel} {env : InitEnv} (h : (rlLogInit level env w).1 = RL_SUCCESS) :
    10 ∉ (rlLogInit level env w).2.procName.bytes := by
  by_cases hopen : env.fopen = false
  · rw [rlLogInit, if_pos hopen] at h
    exact absurd h failed_ne_success
  cases hread : env.fgets with
  | eof =>
    simp only [rlLogInit, hopen, hread] at h
    exact absurd h failed_ne_success
  | error left =>
    simp only [rlLogInit, hopen, hread] at h
    exact absurd h failed_ne_success
  | line bytes =>
    cases hlog : env.openLog with
    | none =>
      simp only [rlLogInit, hopen, hread, hlog] at h
      exact absurd h failed_ne_success
    | some fd =>
      simp only [rlLogInit, hopen, hread, hlog]
      intro hmem
      have hcut := List.mem_takeWhile_imp hmem
      simp at hcut

/-- What a process logs in lines can be told from the file: two runs of successful calls after the same
`rl_log_init` that leave the same file logged the same messages, at the same times and levels and from
the same threads, in the same order. -/
theorem log_tells_calls {level : LogLevel} {env : InitEnv} {w₀ : LogWorld}
    (hinit : (rlLogInit level env w₀).1 = RL_SUCCESS)
    (hms : steadyLogger.Valid (rlLogInit level env w₀).2 ms)
    (hms' : steadyLogger.Valid (rlLogInit level env w₀).2 ms')
    (hfile : (steadyLogger.exec (rlLogInit level env w₀).2 ms).file =
      (steadyLogger.exec (rlLogInit level env w₀).2 ms').file) :
    ms.map LogMessage.told = ms'.map LogMessage.told := by
  have hname := init_name hinit
  rw [steady_exec hms, steady_exec hms'] at hfile
  have hisLine {ms : List LogMessage} (h : ∀ m ∈ ms, m.Plain ∧ m.message ≠ none) :
      ∀ l ∈ ms.map (lineOf (rlLogInit level env w₀).2), IsLine 10 l := by
    intro l hl
    obtain ⟨m, hm, rfl⟩ := List.mem_map.mp hl
    exact lineOf_isLine hname (h m hm).1 (h m hm).2
  have hlines := lines_injective (hisLine (steady_mem hms)) (hisLine (steady_mem hms'))
    (List.append_cancel_left hfile)
  exact told_of_lines (steady_mem hms) (steady_mem hms') hlines

def named : InitEnv := ⟨true, .line (text "app\n"), 42, some 3⟩

def inOneGo : Writes := ⟨fun _ count => some count, fun _ _ n hcount hn => by
  cases hn
  omega⟩

theorem writeLoop_answered {writes : Writes} (h : ∀ i count, writes.answer i count ≠ none) (i : ℕ)
    (rest file : List Byte) : (writeLoop writes i rest file).1 = RL_SUCCESS := by
  induction hn : rest.length using Nat.strong_induction_on generalizing i rest file with
  | _ n ih =>
    by_cases hrest : rest = []
    · rw [hrest, writeLoop_nil]
    obtain ⟨k, hk⟩ := Option.ne_none_iff_exists'.mp (h i rest.length)
    have hlawful := writes.lawful i rest.length k (List.length_pos_iff.mpr hrest) hk
    rw [writeLoop_step hrest hk]
    exact ih (rest.drop k).length (by rw [List.length_drop]; omega) _ _ _ rfl

def notice (writes : Writes) : LogMessage :=
  { greeting with env := { greeting.env with stat := none, writes := writes } }

theorem notice_steady (writes : Writes) (h : ∀ i count, writes.answer i count ≠ none) :
    steadyLogger.Valid (rlLogInit .info named (.start [])).2 [notice writes] := by
  refine ⟨⟨⟨nofun, fun buf hbuf => ?_⟩, ?_, Or.inl rfl⟩, trivial⟩
  · cases hbuf
    decide
  · have hlength : ¬ RL_LOG_BUF_SIZE ≤ (text "hello").length := by decide
    simp [rlLogGeneric, notice, greeting, rlLogInit, named, writeRlLog, rotate, writeLoop_answered h,
      hlength]

theorem log_tells_calls_notice :
    [notice inOneGo].map LogMessage.told = [notice oneAtATime].map LogMessage.told := by
  have hinit : (rlLogInit .info named (.start [])).1 = RL_SUCCESS := rfl
  have hwhole := notice_steady inOneGo nofun
  have hcut := notice_steady oneAtATime nofun
  have hfile : (steadyLogger.exec (rlLogInit .info named (.start [])).2 [notice inOneGo]).file =
      (steadyLogger.exec (rlLogInit .info named (.start [])).2 [notice oneAtATime]).file := by
    rw [steady_exec hwhole, steady_exec hcut]
    rfl
  exact log_tells_calls hinit hwhole hcut hfile

end Runs

end RlLibrary.Log
