import RlLibrary.Log.Program

namespace RlLibrary.Log

open Foundation

/-- `/tmp/Messages` names the file that is being written, so `stat` tells its size. -/
def StatTells (w : LogWorld) (m : LogMessage) : Prop :=
  ∀ size, m.env.stat = some size → size = w.file.length

def lineOf (w : LogWorld) (m : LogMessage) : List Byte :=
  match m.message with
  | none => []
  | some buf => formatLine w m.env m.level (CString.ofBuffer buf)

def Exceeds (w : LogWorld) : Prop := w.file.length > RL_LOG_FILE_SIZE

instance (w : LogWorld) : Decidable (Exceeds w) := inferInstanceAs (Decidable (_ > _))

structure Writing (w : LogWorld) (m : LogMessage) (code : ℤ) (file : List Byte) : Prop where
  succeeded : code = RL_SUCCESS →
    file = (if m.env.stat ≠ none ∧ Exceeds w then [] else w.file) ++ lineOf w m
  bounded : code = RL_SUCCESS → m.env.stat ≠ none →
    file.length ≤ RL_LOG_FILE_SIZE + (lineOf w m).length
  failed : code ≠ RL_SUCCESS →
    ∃ part, part <+: lineOf w m ∧ (file = w.file ++ part ∨ (Exceeds w ∧ file = part))

section Line

theorem signedDecimal_int (v : BitVec 32) : (signedDecimal 0 v.toInt).length ≤ 11 := by
  have hlow := BitVec.le_toInt v
  have hhigh := BitVec.toInt_lt (x := v)
  have hlength : (decimal v.toInt.natAbs).length ≤ 10 := decimal_length_le (by decide) (by omega)
  simp only [signedDecimal, Nat.zero_sub, List.replicate_zero, List.append_nil, List.length_append]
  split_ifs <;> simp only [List.length_cons, List.length_nil] <;> omega

theorem levelName_length (level : LogLevel) : (text (levelName level)).length ≤ 5 := by
  cases level <;> decide

theorem formatLine_length_lt (w : LogWorld) (env : WriteEnv) (level : LogLevel)
    {message : CString} (h : message.bytes.length < RL_LOG_BUF_SIZE) :
    (formatLine w env level message).length < logBufSize := by
  have htwoDigits {n : ℕ} (h : n < 100) : (signedDecimal 2 n).length = 2 :=
    signedDecimal_length (by decide) h
  have hhour := htwoDigits (n := env.clock.tmHour.val) (by omega)
  have hmin := htwoDigits (n := env.clock.tmMin.val) (by omega)
  have hsec := htwoDigits (n := env.clock.tmSec.val) (by omega)
  have hname := w.procName.short
  have hpid := signedDecimal_int w.pidNow
  have htid := signedDecimal_int env.tid
  have hlevel := levelName_length level
  have hone (s : String) (hs : s ∈ [":", "-", " ", "\n"]) : (text s).length = 1 := by
    revert s
    decide
  have htwo (s : String) (hs : s ∈ ["-p", "-t"]) : (text s).length = 2 := by
    revert s
    decide
  rw [formatLine]
  split_ifs
  · simp only [List.length_append, hhour, hmin, hsec, hone ":" (by decide), hone "-" (by decide),
      hone " " (by decide), hone "\n" (by decide), htwo "-p" (by decide), htwo "-t" (by decide),
      logBufSize, RL_LOG_BUF_SIZE] at h ⊢
    omega
  · exact h.trans (by decide)

theorem printed_take {size : ℕ} {line : List Byte} (h : line.length < size) :
    (printed size line).take line.length = line := by
  rw [printed, List.take_of_length_le (i := size - 1) (by omega), List.take_left]

end Line

section Loop

theorem writeLoop_nil (writes : Writes) (i : ℕ) (file : List Byte) :
    writeLoop writes i [] file = (RL_SUCCESS, file) := by
  rw [writeLoop]
  simp

theorem writeLoop_error {writes : Writes} {i : ℕ} {rest : List Byte} (hrest : rest ≠ [])
    (h : writes.answer i rest.length = none) (file : List Byte) :
    writeLoop writes i rest file = (RL_FAILED, file) := by
  rw [writeLoop, dif_neg hrest]
  split
  · rfl
  · next n hn => rw [h] at hn; cases hn

theorem writeLoop_step {writes : Writes} {i n : ℕ} {rest : List Byte} (hrest : rest ≠ [])
    (h : writes.answer i rest.length = some n) (file : List Byte) :
    writeLoop writes i rest file =
      writeLoop writes (i + 1) (rest.drop n) (file ++ rest.take n) := by
  rw [writeLoop, dif_neg hrest]
  split
  · next hn => rw [h] at hn; cases hn
  · next n' hn => rw [h] at hn; cases hn; rfl

theorem writeLoop_appends (writes : Writes) (i : ℕ) (rest file : List Byte) :
    ∃ part, part <+: rest ∧ (writeLoop writes i rest file).2 = file ++ part ∧
      ((writeLoop writes i rest file).1 = RL_SUCCESS → part = rest) := by
  induction hlength : rest.length using Nat.strong_induction_on generalizing i rest file with
  | _ length ih =>
    by_cases hrest : rest = []
    · subst hrest
      rw [writeLoop_nil]
      exact ⟨[], List.prefix_rfl, by rw [List.append_nil], fun _ => rfl⟩
    · cases hanswer : writes.answer i rest.length with
      | none =>
        rw [writeLoop_error hrest hanswer]
        refine ⟨[], List.nil_prefix, by rw [List.append_nil], fun h => ?_⟩
        have hcode : RL_FAILED = RL_SUCCESS := h
        exact absurd hcode (by decide)
      | some n =>
        have hpos := List.length_pos_iff.mpr hrest
        obtain ⟨hn, _⟩ := writes.lawful i _ n hpos hanswer
        rw [writeLoop_step hrest hanswer]
        obtain ⟨part, hpart, hfile, hall⟩ := ih (rest.drop n).length
          (by rw [List.length_drop]; omega) (i + 1) (rest.drop n) (file ++ rest.take n) rfl
        refine ⟨rest.take n ++ part, ?_, ?_, fun h => ?_⟩
        · have hprefix := (List.prefix_append_right_inj (rest.take n)).mpr hpart
          rwa [List.take_append_drop] at hprefix
        · rw [hfile, List.append_assoc]
        · rw [hall h, List.take_append_drop]

end Loop

section Call

variable {w : LogWorld} {m : LogMessage}

theorem rotate_cases (h : StatTells w m) :
    rotate m.env w.file = (false, w.file) ∨ (Exceeds w ∧ rotate m.env w.file = (false, [])) ∨
      rotate m.env w.file = (true, if m.env.stat ≠ none ∧ Exceeds w then [] else w.file) := by
  cases hstat : m.env.stat with
  | none =>
    right; right
    simp [rotate, hstat]
  | some size =>
    have hsize := h size hstat
    by_cases hexceeds : Exceeds w
    · have hbig : size > RL_LOG_FILE_SIZE := by rwa [hsize]
      cases htruncate : m.env.ftruncate with
      | false =>
        left
        simp [rotate, hstat, hbig, htruncate]
      | true =>
        right
        cases hseek : m.env.lseek with
        | false =>
          left
          simp [rotate, hstat, hbig, htruncate, hseek, hexceeds]
        | true =>
          right
          simp [rotate, hstat, hbig, htruncate, hseek, hexceeds]
    · have hsmall : ¬ size > RL_LOG_FILE_SIZE := by rwa [hsize]
      right; right
      simp [rotate, hstat, hsmall, hexceeds]

theorem writing_untouched : Writing w m RL_FAILED w.file where
  succeeded h := absurd h (by decide)
  bounded h := absurd h (by decide)
  failed _ := ⟨[], List.nil_prefix, Or.inl (List.append_nil _).symm⟩

theorem writing_emptied (h : Exceeds w) : Writing w m RL_FAILED [] where
  succeeded h := absurd h (by decide)
  bounded h := absurd h (by decide)
  failed _ := ⟨[], List.nil_prefix, Or.inr ⟨h, rfl⟩⟩

theorem writing_loop (writes : Writes) :
    Writing w m
      (writeLoop writes 0 (lineOf w m) (if m.env.stat ≠ none ∧ Exceeds w then [] else w.file)).1
      (writeLoop writes 0 (lineOf w m) (if m.env.stat ≠ none ∧ Exceeds w then [] else w.file)).2 := by
  obtain ⟨part, hpart, hfile, hall⟩ := writeLoop_appends writes 0 (lineOf w m)
    (if m.env.stat ≠ none ∧ Exceeds w then [] else w.file)
  rw [hfile]
  refine ⟨fun h => by rw [hall h], fun h hstat => ?_, fun _ => ⟨part, hpart, ?_⟩⟩
  · rw [hall h, List.length_append]
    by_cases hexceeds : Exceeds w
    · simp [hstat, hexceeds]
    · have hsmall := Nat.not_lt.mp hexceeds
      simp only [hexceeds, and_false, ↓reduceIte]
      omega
  · by_cases hempty : m.env.stat ≠ none ∧ Exceeds w
    · right
      rw [if_pos hempty]
      exact ⟨hempty.2, rfl⟩
    · left
      rw [if_neg hempty]

theorem writeRlLog_writing {buf : List Byte} (hm : m.message = some buf)
    (hbuf : buf.length < RL_LOG_BUF_SIZE) (h : StatTells w m) :
    Writing w m (writeRlLog m.level (CString.ofBuffer buf) m.env w).1
      (writeRlLog m.level (CString.ofBuffer buf) m.env w).2.file := by
  have hline : lineOf w m = formatLine w m.env m.level (CString.ofBuffer buf) := by
    rw [lineOf, hm]
  have hfits : (lineOf w m).length < logBufSize := by
    rw [hline]
    exact formatLine_length_lt w m.env m.level
      ((CString.ofBuffer_prefix buf).length_le.trans_lt hbuf)
  by_cases hfd : w.logFileFd = none
  · rw [writeRlLog, if_pos hfd]
    exact writing_untouched
  · cases hprint : m.env.snprintf with
    | false =>
      simp only [writeRlLog, hfd, hprint, ↓reduceIte]
      exact writing_untouched
    | true =>
      simp only [writeRlLog, hfd, hprint, Bool.true_eq_false, ↓reduceIte, ← hline,
        printed_take hfits]
      rcases rotate_cases h with hrotate | ⟨hexceeds, hrotate⟩ | hrotate
      · simp only [hrotate, ↓reduceIte]
        exact writing_untouched
      · simp only [hrotate, ↓reduceIte]
        exact writing_emptied hexceeds
      · simp only [hrotate, Bool.true_eq_false, ↓reduceIte]
        exact writing_loop m.env.writes

theorem rlLogGeneric_writing (h : StatTells w m) :
    Writing w m (rlLogGeneric m.level m.message m.env w).1
      (rlLogGeneric m.level m.message m.env w).2.file := by
  by_cases hlevel : w.curRlLogLevel.code < m.level.code
  · simp only [rlLogGeneric, hlevel, ↓reduceIte]
    exact writing_untouched
  · cases hm : m.message with
    | none =>
      simp only [rlLogGeneric, hlevel, ↓reduceIte]
      exact writing_untouched
    | some buf =>
      by_cases hbuf : buf.length ≥ RL_LOG_BUF_SIZE
      · simp only [rlLogGeneric, hlevel, hbuf, ↓reduceIte]
        exact writing_untouched
      · have hwriting := writeRlLog_writing hm (Nat.not_le.mp hbuf) h
        by_cases hcode : (writeRlLog m.level (CString.ofBuffer buf) m.env w).1 = RL_SUCCESS
        · simp only [rlLogGeneric, hlevel, hbuf, hcode, ne_eq, not_true, ↓reduceIte]
          rwa [hcode] at hwriting
        · simp only [rlLogGeneric, hlevel, hbuf, hcode, ne_eq, not_false_iff, ↓reduceIte]
          exact ⟨fun h => absurd h (by decide), fun h => absurd h (by decide),
            fun _ => hwriting.failed hcode⟩

end Call

/-- In a run of log calls, whatever was initialised before, each successful call appends its
line to what the file contains or to the emptied file, and each failed one a prefix of it. -/
theorem log_file_over_runs (w : LogWorld) (run : List LogMessage)
    (hstat : ∀ pre m, pre ++ [m] <+: run → StatTells (logger.exec w (pre.map .log)) m) :
    ∀ pre m, pre ++ [m] <+: run →
      let before := logger.exec w (pre.map .log)
      Writing before m (rlLogGeneric m.level m.message m.env before).1
        (logger.exec w ((pre ++ [m]).map .log)).file := by
  intro pre m hpre before
  rw [List.map_append, Machine.exec_append]
  have hcall : (logger.exec before ([m].map .log)) =
      (rlLogGeneric m.level m.message m.env before).2 := rlLog_eq _ _ _ _
  rw [hcall]
  exact rlLogGeneric_writing (hstat pre m hpre)

def oneAtATime : Writes := ⟨fun _ _ => some 1, fun _ _ n hcount hn => by
  cases hn
  omega⟩

def greeting : LogMessage :=
  ⟨.info, some (text "hello"), ⟨⟨8, 30, 0⟩, 7, true, some 3, true, true, oneAtATime⟩⟩

def listening : LogWorld := { LogWorld.start (text "abc") with curRlLogLevel := .info, logFileFd := some 3 }

def fullLog : LogWorld := { listening with file := List.replicate (RL_LOG_FILE_SIZE + 1) 0 }

def emptying : LogMessage :=
  { greeting with env := { greeting.env with stat := some (RL_LOG_FILE_SIZE + 1) } }

def following : LogMessage :=
  { greeting with env :=
    { greeting.env with stat := some (logger.exec fullLog [.log emptying]).file.length } }

theorem log_file_over_runs_emptied :
    Exceeds fullLog ∧ Writing (logger.exec fullLog [.log emptying]) following
      (rlLogGeneric following.level following.message following.env
        (logger.exec fullLog [.log emptying])).1
      (logger.exec fullLog [.log emptying, .log following]).file := by
  have hlength : fullLog.file.length = RL_LOG_FILE_SIZE + 1 := List.length_replicate
  have hexceeds : Exceeds fullLog := by
    rw [Exceeds, hlength]
    exact Nat.lt_succ_self _
  refine ⟨hexceeds, ?_⟩
  apply log_file_over_runs fullLog [emptying, following] _ [emptying] following List.prefix_rfl
  intro pre m hpre size hsize
  have htwo : pre ++ [m] <+: [emptying] ++ [following] := hpre
  rcases List.prefix_concat_iff.mp htwo with hlast | hfirst
  · obtain ⟨rfl, hm⟩ := List.append_inj' hlast rfl
    obtain rfl : m = following := List.singleton_inj.mp hm
    exact (Option.some.inj hsize).symm
  · have hshort := hfirst.length_le
    rw [List.length_append, List.length_singleton, List.length_singleton] at hshort
    obtain rfl : pre = [] := List.length_eq_zero_iff.mp (by omega)
    obtain rfl : m = emptying := (List.cons_prefix_cons.mp hfirst).1
    exact (Option.some.inj hsize).symm.trans hlength.symm

end RlLibrary.Log
