import Mathlib.Tactic.IntervalCases
import RlLibrary.Foundation.Buffer
import RlLibrary.Foundation.Calendar
import RlLibrary.Foundation.Scan
import RlLibrary.Foundation.WaitStatus
import RlLibrary.Public

namespace RlLibrary.Time

open Foundation

structure ClockArgs where
  year : BitVec 32
  mon : BitVec 32
  day : BitVec 32
  hour : BitVec 32
  min : BitVec 32
  sec : BitVec 32
  deriving DecidableEq

/-- What `buf` held before the call, and how the two calls of `system` end: with the status of
the shell, or `none` for -1. -/
structure ClockEnv where
  stack : List Byte
  date : Option Termination
  hwclock : Option Termination

structure Setting where
  result : ℤ
  commands : List (List Byte)

def systemValue : Option Termination → ℤ
  | none => -1
  | some t => t.status.toInt

def daysInMonth (year : BitVec 32) : List (BitVec 32) :=
  let table : List (BitVec 32) := [31, 28, 31, 30, 31, 30, 31, 31, 30, 31, 30, 31]
  if (year % 4 = 0 ∧ ¬ year % 100 = 0) ∨ year % 400 = 0 then table.set 1 29 else table

def acceptsTime (a : ClockArgs) : Bool :=
  if a.year < 1970 ∨ a.year > 2200 then false else
  if a.mon < 1 ∨ a.mon > 12 then false else
  if a.day < 1 ∨ a.day > (daysInMonth a.year).getD (a.mon - 1).toNat 0 then false else
  if a.hour > 23 ∨ a.min > 59 ∨ a.sec > 59 then false else
  true

/-- The `snprintf` format; `%d` takes its argument as an `int`. -/
def dateCommand (a : ClockArgs) : List Byte :=
  text "sudo date -u -s \"" ++ signedDecimal 4 a.year.toInt ++ text "-" ++
    signedDecimal 2 a.mon.toInt ++ text "-" ++ signedDecimal 2 a.day.toInt ++ text " " ++
    signedDecimal 2 a.hour.toInt ++ text ":" ++ signedDecimal 2 a.min.toInt ++ text ":" ++
    signedDecimal 2 a.sec.toInt ++ text "\""

def dateBuf (a : ClockArgs) (stack : List Byte) : List Byte :=
  ((Buffer.mk stack []).snprintf 64 (dateCommand a)).string.bytes

def rlUpdateSysTime (a : ClockArgs) (env : ClockEnv) : Setting :=
  if acceptsTime a = false then ⟨RL_FAILED, []⟩ else
  if systemValue env.date = -1 then ⟨RL_FAILED, [dateBuf a env.stack]⟩ else
  let commands := [dateBuf a env.stack, text "sudo hwclock -w"]
  if systemValue env.hwclock = -1 then ⟨RL_FAILED, commands⟩ else
  ⟨RL_SUCCESS, commands⟩

section Result

theorem systemValue_failed (r : Option Termination) : systemValue r = -1 ↔ r = none := by
  cases r with
  | none => exact iff_of_true rfl rfl
  | some t =>
    refine iff_of_false ?_ (by simp)
    cases t with
    | exited code =>
      revert code
      decide +kernel
    | killed signal core =>
      have hbound := signal.bound
      have hstatus : ∀ n < 65, ∀ core : Bool,
          (BitVec.ofNat 32 n ||| if core then 0x80#32 else 0#32).toInt ≠ -1 := by
        decide +kernel
      exact hstatus signal.number (by omega) core

structure ReportsSet (a : ClockArgs) (env : ClockEnv) : Prop where
  success : (rlUpdateSysTime a env).result = RL_SUCCESS ↔
    acceptsTime a = true ∧
      (rlUpdateSysTime a env).commands = [dateBuf a env.stack, text "sudo hwclock -w"] ∧
      env.date = some (.exited 0) ∧ env.hwclock = some (.exited 0)
  rejected : acceptsTime a = false → (rlUpdateSysTime a env).commands = []

theorem rlUpdateSysTime_success (a : ClockArgs) (env : ClockEnv) :
    (rlUpdateSysTime a env).result = RL_SUCCESS ↔
      acceptsTime a = true ∧ env.date ≠ none ∧ env.hwclock ≠ none := by
  rw [← Bool.not_eq_false, ne_eq, ne_eq, ← systemValue_failed, ← systemValue_failed]
  rw [rlUpdateSysTime]
  split_ifs with haccepts hdate hhwclock
  · exact iff_of_false failed_ne_success fun h => h.1 haccepts
  · exact iff_of_false failed_ne_success fun h => h.2.1 hdate
  · exact iff_of_false failed_ne_success fun h => h.2.2 hhwclock
  · exact iff_of_true rfl ⟨haccepts, hdate, hhwclock⟩

theorem rlUpdateSysTime_commands {a : ClockArgs} {env : ClockEnv} (haccepts : acceptsTime a = true)
    (hdate : env.date ≠ none) :
    (rlUpdateSysTime a env).commands = [dateBuf a env.stack, text "sudo hwclock -w"] := by
  rw [ne_eq, ← systemValue_failed] at hdate
  rw [rlUpdateSysTime, if_neg (by simp [haccepts]), if_neg hdate]
  split_ifs <;> rfl

theorem reports_set_iff (a : ClockArgs) (env : ClockEnv) :
    ReportsSet a env ↔ acceptsTime a = false ∨ env.date = none ∨ env.hwclock = none ∨
      (env.date = some (.exited 0) ∧ env.hwclock = some (.exited 0)) := by
  constructor
  · intro h
    by_contra hbad
    simp only [not_or] at hbad
    obtain ⟨haccepts, hdate, hhwclock, hzero⟩ := hbad
    have hsuccess := (rlUpdateSysTime_success a env).mpr ⟨by simpa using haccepts, hdate, hhwclock⟩
    exact hzero (h.success.mp hsuccess).2.2
  · intro h
    constructor
    · rw [rlUpdateSysTime_success]
      constructor
      · rintro ⟨haccepts, hdate, hhwclock⟩
        rcases h with h | h | h | h
        · exact absurd haccepts (by simp [h])
        · exact absurd h hdate
        · exact absurd h hhwclock
        · exact ⟨haccepts, rlUpdateSysTime_commands haccepts hdate, h⟩
      · rintro ⟨haccepts, _, hdate, hhwclock⟩
        exact ⟨haccepts, by simp [hdate], by simp [hhwclock]⟩
    · intro hrejects
      rw [rlUpdateSysTime, if_pos hrejects]

theorem refused_reported_set : ¬ ReportsSet ⟨2024, 1, 1, 0, 0, 0⟩
    ⟨List.replicate 64 0, some (.exited 1), some (.exited 1)⟩ := by
  intro h
  have hset := h.success.mp (by decide)
  exact absurd hset.2.2.1 (by decide)

end Result

section Calendar

variable {a : ClockArgs}

def ClockArgs.civil (a : ClockArgs) : CivilTime :=
  ⟨a.year.toNat, a.mon.toNat, a.day.toNat, a.hour.toNat, a.min.toNat, a.sec.toNat⟩

theorem civil_injective {a b : ClockArgs} (h : a.civil = b.civil) : a = b := by
  obtain ⟨year, mon, day, hour, min, sec⟩ := a
  obtain ⟨year', mon', day', hour', min', sec'⟩ := b
  simpa only [ClockArgs.civil, CivilTime.mk.injEq, BitVec.toNat_inj, ClockArgs.mk.injEq] using h

theorem leap_test (year : BitVec 32) :
    ((year % 4 = 0 ∧ ¬ year % 100 = 0) ∨ year % 400 = 0) ↔ IsLeap year.toNat := by
  simp only [IsLeap, ← BitVec.toNat_inj, BitVec.toNat_umod, BitVec.reduceToNat, ne_eq]

theorem daysInMonth_get (year : BitVec 32) {mon : BitVec 32} (h : 1 ≤ mon.toNat ∧ mon.toNat ≤ 12) :
    ((daysInMonth year).getD (mon - 1).toNat 0).toNat = monthLength year.toNat mon.toNat := by
  have hindex : (mon - 1).toNat = mon.toNat - 1 := by bv_omega
  have hleap := leap_test year
  rw [hindex, daysInMonth]
  obtain ⟨hlow, hhigh⟩ := h
  generalize mon.toNat = m at hlow hhigh ⊢
  by_cases hyear : IsLeap year.toNat
  · rw [if_pos (hleap.mpr hyear)]
    interval_cases m <;> simp [monthLength, hyear]
  · rw [if_neg (mt hleap.mp hyear)]
    interval_cases m <;> simp [monthLength, hyear]

theorem acceptsTime_iff (a : ClockArgs) :
    acceptsTime a = true ↔ a.civil.Valid ∧ a.civil.year < 2201 := by
  have hyear : (a.year < 1970 ∨ a.year > 2200) ↔
      ¬ (1970 ≤ a.year.toNat ∧ a.year.toNat < 2201) := by bv_omega
  have hmon : (a.mon < 1 ∨ a.mon > 12) ↔ ¬ (1 ≤ a.mon.toNat ∧ a.mon.toNat ≤ 12) := by bv_omega
  have hday (last : BitVec 32) : (a.day < 1 ∨ a.day > last) ↔
      ¬ (1 ≤ a.day.toNat ∧ a.day.toNat ≤ last.toNat) := by bv_omega
  have htime : (a.hour > 23 ∨ a.min > 59 ∨ a.sec > 59) ↔
      ¬ (a.hour.toNat < 24 ∧ a.min.toNat < 60 ∧ a.sec.toNat < 60) := by bv_omega
  have hfalse : ¬ false = true := Bool.false_ne_true
  rw [acceptsTime]
  by_cases h1 : 1970 ≤ a.year.toNat ∧ a.year.toNat < 2201
  swap
  · rw [if_pos (hyear.mpr h1)]
    exact iff_of_false hfalse fun ⟨hvalid, hlast⟩ => h1 ⟨hvalid.year, hlast⟩
  rw [if_neg (not_not.mpr h1 ∘ hyear.mp)]
  by_cases h2 : 1 ≤ a.mon.toNat ∧ a.mon.toNat ≤ 12
  swap
  · rw [if_pos (hmon.mpr h2)]
    exact iff_of_false hfalse fun ⟨hvalid, _⟩ => h2 hvalid.month
  rw [if_neg (not_not.mpr h2 ∘ hmon.mp)]
  have hlength := daysInMonth_get a.year h2
  by_cases h3 : 1 ≤ a.day.toNat ∧ a.day.toNat ≤ monthLength a.year.toNat a.mon.toNat
  swap
  · rw [if_pos ((hday _).mpr (hlength ▸ h3))]
    exact iff_of_false hfalse fun ⟨hvalid, _⟩ => h3 hvalid.day
  rw [if_neg (not_not.mpr (hlength ▸ h3) ∘ (hday _).mp)]
  by_cases h4 : a.hour.toNat < 24 ∧ a.min.toNat < 60 ∧ a.sec.toNat < 60
  swap
  · rw [if_pos (htime.mpr h4)]
    exact iff_of_false hfalse fun ⟨hvalid, _⟩ => h4 ⟨hvalid.hour, hvalid.minute, hvalid.second⟩
  rw [if_neg (not_not.mpr h4 ∘ htime.mp)]
  exact iff_of_true rfl ⟨⟨h1.1, h2, h3, h4.1, h4.2.1, h4.2.2⟩, h1.2⟩

def commandFormat : List Directive :=
  ["sudo date -u -s \"", "-", "-", " ", ":", ":"].flatMap
    (fun s => (text s).map .literal ++ [.unsigned 10]) ++ (text "\"").map .literal

def ClockArgs.numbers (a : ClockArgs) : List Scanned :=
  [a.year, a.mon, a.day, a.hour, a.min, a.sec].map fun v => .number (v.setWidth 64)

theorem accepted_bounds (h : acceptsTime a = true) :
    a.year.toNat < 10 ^ 4 ∧ a.mon.toNat < 10 ^ 2 ∧ a.day.toNat < 10 ^ 2 ∧ a.hour.toNat < 10 ^ 2 ∧
      a.min.toNat < 10 ^ 2 ∧ a.sec.toNat < 10 ^ 2 := by
  obtain ⟨⟨_, hmonth, hday, hhour, hminute, hsecond⟩, hyear⟩ := (acceptsTime_iff a).mp h
  have hlength : monthLength a.civil.year a.civil.month ≤ 31 := by
    rw [monthLength]
    split_ifs <;> decide
  simp only [ClockArgs.civil] at *
  omega

theorem dateCommand_accepted (h : acceptsTime a = true) : dateCommand a =
    text "sudo date -u -s \"" ++ (signedDecimal 4 a.year.toNat ++ (text "-" ++
      (signedDecimal 2 a.mon.toNat ++ (text "-" ++ (signedDecimal 2 a.day.toNat ++ (text " " ++
      (signedDecimal 2 a.hour.toNat ++ (text ":" ++ (signedDecimal 2 a.min.toNat ++ (text ":" ++
      (signedDecimal 2 a.sec.toNat ++ text "\""))))))))))) := by
  obtain ⟨hyear, hmon, hday, hhour, hmin, hsec⟩ := accepted_bounds h
  have hint {v : BitVec 32} {bound : ℕ} (hv : v.toNat < bound) (hbound : bound ≤ 2 ^ 31) :
      v.toInt = v.toNat := BitVec.toInt_eq_toNat_of_lt (by omega)
  rw [dateCommand, hint hyear (by decide), hint hmon (by decide), hint hday (by decide),
    hint hhour (by decide), hint hmin (by decide), hint hsec (by decide)]
  simp only [List.append_assoc]

theorem dateCommand_length (h : acceptsTime a = true) : (dateCommand a).length = 37 := by
  obtain ⟨hyear, hmon, hday, hhour, hmin, hsec⟩ := accepted_bounds h
  rw [dateCommand_accepted h]
  simp only [List.length_append, signedDecimal_length (by decide) hyear,
    signedDecimal_length (by decide) hmon, signedDecimal_length (by decide) hday,
    signedDecimal_length (by decide) hhour, signedDecimal_length (by decide) hmin,
    signedDecimal_length (by decide) hsec]
  rfl

theorem dateCommand_nonzero (h : acceptsTime a = true) : 0 ∉ dateCommand a := by
  have hpadded (width n : ℕ) : 0 ∉ signedDecimal width n := fun hzero =>
    (digit_printed ((padded_digits hzero).trans (by decide))).1 rfl
  have htext : ∀ sep ∈ ["sudo date -u -s \"", "-", " ", ":", "\""], 0 ∉ text sep := by decide
  rw [dateCommand_accepted h]
  simp only [List.mem_append, hpadded, htext "sudo date -u -s \"" (by decide),
    htext "-" (by decide), htext " " (by decide), htext ":" (by decide), htext "\"" (by decide),
    or_self, not_false_iff]

theorem sscanf_field (format : List Directive) (sep : List Byte) {width n : ℕ} {rest : List Byte}
    (hn : n < 2 ^ 64) (hrest : Stops (fun b => digit b < 10) rest) :
    sscanf (sep.map .literal ++ (.unsigned 10 :: format)) (sep ++ (signedDecimal width n ++ rest)) =
      .number (BitVec.ofNat 64 n) :: sscanf format rest := by
  have hvalue := value_padded width n
  have hstart : Stops isSpace (signedDecimal width n ++ rest) :=
    stops_append (padded_ne_nil width n) fun b hb => digit_not_space ((padded_digits hb).trans (by decide))
  have hread := readUnsigned_digits (padded_ne_nil width n) (fun b => padded_digits)
    (hvalue.symm ▸ hn) hrest
  rw [hvalue] at hread
  rw [sscanf_literal, sscanf]
  simp only [hstart.dropWhile, hread]

theorem dateCommand_read (h : acceptsTime a = true) : sscanf commandFormat (dateCommand a) = a.numbers := by
  have hstops (sep : String) (hsep : sep ∈ ["-", " ", ":", "\""]) (rest : List Byte) :
      Stops (fun b => digit b < 10) (text sep ++ rest) := by
    have hall : ∀ sep ∈ ["-", " ", ":", "\""], text sep ≠ [] ∧
        (text sep).all (fun b => decide (digit b < 10) = false) = true := by decide
    exact stops_append (hall sep hsep).1 (forall_of_all (hall sep hsep).2)
  have hquote := hstops "\"" (by decide) []
  rw [List.append_nil] at hquote
  have hend : sscanf ((text "\"").map .literal) (text "\"") = [] := by decide
  have hsmall (v : BitVec 32) : v.toNat < 2 ^ 64 := v.isLt.trans (by decide)
  rw [dateCommand_accepted h, commandFormat]
  simp only [List.flatMap_cons, List.flatMap_nil, List.append_assoc, List.cons_append,
    List.nil_append]
  rw [sscanf_field _ _ (hsmall _) (hstops "-" (by decide) _)]
  rw [sscanf_field _ _ (hsmall _) (hstops "-" (by decide) _)]
  rw [sscanf_field _ _ (hsmall _) (hstops " " (by decide) _)]
  rw [sscanf_field _ _ (hsmall _) (hstops ":" (by decide) _)]
  rw [sscanf_field _ _ (hsmall _) (hstops ":" (by decide) _)]
  rw [sscanf_field _ _ (hsmall _) hquote, hend]
  simp only [BitVec.ofNat_toNat]
  rfl

theorem clock_setter_calendar (a : ClockArgs) :
    (acceptsTime a = true ↔
      ∃ t < (⟨2201, 1, 1, 0, 0, 0⟩ : CivilTime).seconds, CivilTime.breakdown t = a.civil) ∧
    (∀ (b : ClockArgs) (t t' : ℕ), CivilTime.breakdown t = a.civil →
      CivilTime.breakdown t' = b.civil → (t = t' ↔ a = b)) ∧
    (acceptsTime a = true → ∀ stack, (dateCommand a).length < 64 ∧
      dateBuf a stack = dateCommand a ∧ sscanf commandFormat (dateBuf a stack) = a.numbers) := by
  refine ⟨?_, fun b t t' ht ht' => ⟨?_, ?_⟩, fun h stack => ?_⟩
  · rw [acceptsTime_iff, CivilTime.exists_breakdown (by decide)]
  · rintro rfl
    exact civil_injective (ht.symm.trans ht')
  · rintro rfl
    exact CivilTime.breakdown_injective (ht.trans ht'.symm)
  · have hlength := dateCommand_length h
    have hbuf : dateBuf a stack = dateCommand a := by
      have hholds := (Buffer.mk stack []).snprintf_holds (show 0 < 64 by decide) (dateCommand_nonzero h)
      rw [List.take_of_length_le (by omega)] at hholds
      exact hholds.string
    refine ⟨by omega, hbuf, ?_⟩
    rw [hbuf]
    exact dateCommand_read h

end Calendar

end RlLibrary.Time
