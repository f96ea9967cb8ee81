import RlLibrary.Foundation.Buffer
import RlLibrary.Log.Writing

namespace RlLibrary.Log

open Foundation

structure LetsThrough (w : LogWorld) (m : LogMessage) : Prop where
  level : ¬ w.curRlLogLevel.code < m.level.code
  message : ∃ buf, m.message = some buf ∧ ¬ buf.length ≥ RL_LOG_BUF_SIZE

def logBuf (line : List Byte) : Buffer :=
  (Buffer.mk (List.replicate logBufSize 0) []).snprintf logBufSize line

structure WriteCall where
  offset : ℤ
  count : ℕ

def WriteCall.passed (c : WriteCall) (array : List Byte) : List Byte :=
  (array.drop c.offset.toNat).take c.count

structure LoopEnd where
  code : Option ℤ
  file : List Byte
  calls : List WriteCall

def bytesLeft (logLen bytesWritten : ℤ) : ℕ :=
  (BitVec.ofInt 64 logLen - BitVec.ofInt 64 bytesWritten).toNat

def arrayLoop (answer : ℕ → ℕ → Option ℕ) (array : List Byte) (logLen : ℤ) :
    ℕ → ℕ → ℤ → List Byte → LoopEnd
  | 0, _, _, file => ⟨none, file, []⟩
  | fuel + 1, i, bytesWritten, file =>
    if bytesWritten < logLen then
      let call : WriteCall := ⟨bytesWritten, bytesLeft logLen bytesWritten⟩
      match answer i call.count with
      | none => ⟨some RL_FAILED, file, [call]⟩
      | some ret =>
        let rest := arrayLoop answer array logLen fuel (i + 1) (bytesWritten + ret)
          (file ++ (call.passed array).take ret)
        { rest with calls := call :: rest.calls }
    else ⟨some RL_SUCCESS, file, []⟩

def Short (answer : ℕ → ℕ → Option ℕ) : Prop := ∀ i count ret, answer i count = some ret → ret ≤ count

structure WriteCall.Inside (length : ℕ) (c : WriteCall) : Prop where
  start : 0 ≤ c.offset
  stop : c.offset + c.count ≤ length

structure LineFits (w : LogWorld) (m : LogMessage) : Prop where
  fits : (lineOf w m).length < logBufSize
  room : ∀ i ∈ (logBuf (lineOf w m)).writes, i < logBufSize
  stored : (logBuf (lineOf w m)).bytes.take (lineOf w m).length = lineOf w m
  newline : m.level ≠ .normal → (lineOf w m).getLast? = some 10
  inside : ∀ answer, Short answer → ∀ fuel file, ∀ c ∈ (arrayLoop answer
    (logBuf (lineOf w m)).bytes (lineOf w m).length fuel 0 0 file).calls, c.Inside (lineOf w m).length
  agrees : ∀ fuel file, (lineOf w m).length < fuel → ∃ calls,
    arrayLoop m.env.writes.answer (logBuf (lineOf w m)).bytes (lineOf w m).length fuel 0 0 file =
      ⟨some (writeLoop m.env.writes 0 (lineOf w m) file).1,
        (writeLoop m.env.writes 0 (lineOf w m) file).2, calls⟩

section Loop

variable {array : List Byte} {length written : ℕ}

theorem bytesLeft_eq (hwritten : written ≤ length) (hlength : length < 2 ^ 63) :
    bytesLeft length written = length - written := by
  rw [bytesLeft, BitVec.ofInt_natCast, BitVec.ofInt_natCast]
  bv_omega

theorem length_rest (harray : length ≤ array.length) :
    ((array.take length).drop written).length = length - written := by
  rw [List.length_drop, List.length_take, Nat.min_eq_left harray]

theorem passed_rest (array : List Byte) (length written : ℕ) :
    WriteCall.passed ⟨written, length - written⟩ array = (array.take length).drop written := by
  rw [WriteCall.passed, Int.toNat_natCast, List.drop_take]

theorem arrayLoop_inside {answer : ℕ → ℕ → Option ℕ} (hshort : Short answer)
    (hlength : length < 2 ^ 63) (fuel i : ℕ) (hwritten : written ≤ length) (file : List Byte) :
    ∀ c ∈ (arrayLoop answer array length fuel i written file).calls, c.Inside length := by
  induction fuel generalizing i written file with
  | zero => exact fun c hc => by cases hc
  | succ fuel ih =>
    have hleft := bytesLeft_eq hwritten hlength
    have hcall : (⟨written, bytesLeft length written⟩ : WriteCall).Inside length := by
      constructor
      · exact Int.natCast_nonneg written
      · dsimp only
        omega
    rw [arrayLoop]
    split_ifs with hmore
    · dsimp only
      cases hanswer : answer i (bytesLeft length written) with
      | none => exact List.forall_mem_singleton.mpr hcall
      | some ret =>
        have hret := hshort i _ ret hanswer
        have hnext : written + ret ≤ length := by omega
        have hrest := ih (i + 1) hnext
        push_cast at hrest
        exact List.forall_mem_cons.mpr ⟨hcall, hrest _⟩
    · exact fun c hc => by cases hc

theorem arrayLoop_agrees (writes : Writes) (harray : length ≤ array.length)
    (hlength : length < 2 ^ 63) {fuel : ℕ} (i : ℕ) (hwritten : written ≤ length)
    (hfuel : length - written < fuel) (file : List Byte) :
    ∃ calls, arrayLoop writes.answer array length fuel i written file =
      ⟨some (writeLoop writes i ((array.take length).drop written) file).1,
        (writeLoop writes i ((array.take length).drop written) file).2, calls⟩ := by
  induction fuel generalizing i written file with
  | zero => exact absurd hfuel (Nat.not_lt_zero _)
  | succ fuel ih =>
    have hleft := bytesLeft_eq hwritten hlength
    have hrest : ((array.take length).drop written).length = length - written := length_rest harray
    rw [arrayLoop]
    by_cases hend : written = length
    · have hnil : (array.take length).drop written = [] := List.eq_nil_of_length_eq_zero (by omega)
      rw [if_neg (by omega), hnil, writeLoop_nil]
      exact ⟨[], rfl⟩
    · have hne : (array.take length).drop written ≠ [] := List.ne_nil_of_length_pos (by omega)
      rw [if_pos (by omega)]
      dsimp only
      rw [hleft]
      cases hanswer : writes.answer i (length - written) with
      | none =>
        rw [writeLoop_error hne (hrest ▸ hanswer)]
        exact ⟨_, rfl⟩
      | some ret =>
        obtain ⟨hpos, hret⟩ := writes.lawful i _ ret (by omega) hanswer
        have hnext : written + ret ≤ length := by omega
        have hfuel' : length - (written + ret) < fuel := by omega
        obtain ⟨calls, hloop⟩ := ih (i + 1) hnext hfuel'
          (file ++ ((array.take length).drop written).take ret)
        push_cast at hloop
        rw [writeLoop_step hne (hrest ▸ hanswer), passed_rest, List.drop_drop]
        dsimp only
        rw [hloop]
        exact ⟨_, rfl⟩

end Loop

theorem lineOf_length_lt {w : LogWorld} {m : LogMessage} (h : LetsThrough w m) :
    (lineOf w m).length < logBufSize := by
  obtain ⟨buf, hmessage, hbuf⟩ := h.message
  rw [lineOf, hmessage]
  exact formatLine_length_lt w m.env m.level
    ((CString.ofBuffer_prefix buf).length_le.trans_lt (Nat.not_le.mp hbuf))

theorem logBuf_holds {line : List Byte} (h : line.length < logBufSize) :
    line ++ [0] <+: (logBuf line).bytes := by
  have htake : line.take (logBufSize - 1) = line := List.take_of_length_le (by omega)
  rw [logBuf, Buffer.snprintf, if_neg (by decide), htake]
  exact Buffer.write_extends List.nil_prefix (line ++ [0])

theorem lineOf_newline {w : LogWorld} {m : LogMessage} (h : LetsThrough w m)
    (hlevel : m.level ≠ .normal) : (lineOf w m).getLast? = some 10 := by
  obtain ⟨buf, hmessage, _⟩ := h.message
  have hnewline : text "\n" = [10] := by decide
  rw [lineOf, hmessage]
  dsimp only
  rw [formatLine, if_pos hlevel, hnewline, List.getLast?_concat]

theorem log_line_fits {w : LogWorld} {m : LogMessage} (h : LetsThrough w m) : LineFits w m := by
  have hfits := lineOf_length_lt h
  have hline : lineOf w m <+: (logBuf (lineOf w m)).bytes :=
    (List.prefix_append _ _).trans (logBuf_holds hfits)
  have hstored := (List.prefix_iff_eq_take.mp hline).symm
  have hlength : (lineOf w m).length < 2 ^ 63 := hfits.trans (by decide)
  refine ⟨hfits, fun i hi => ?_, hstored, lineOf_newline h, fun answer hshort fuel file => ?_,
    fun fuel file hfuel => ?_⟩
  · exact (Buffer.mem_snprintf_writes (by decide) hi).resolve_left List.not_mem_nil
  · exact arrayLoop_inside hshort hlength fuel 0 (Nat.zero_le _) file
  · have hagrees := arrayLoop_agrees m.env.writes hline.length_le hlength 0 (Nat.zero_le _) hfuel file
    rwa [hstored, List.drop_zero] at hagrees

theorem log_line_fits_greeting : LineFits listening greeting :=
  log_line_fits ⟨by decide, text "hello", rfl, by decide⟩

end RlLibrary.Log
