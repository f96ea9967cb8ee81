import Mathlib.Tactic.IntervalCases
import RlLibrary.Foundation.Calendar
import RlLibrary.Foundation.Reading
import RlLibrary.Time.Server

/-!
`strptime` of the C library in the C locale, for the conversions of `dateFormat`, and the dates of
HTTP read by it.
-/

namespace RlLibrary.Time

open Foundation

inductive TimeConversion where
  | blanks
  | literal (b : Byte)
  | weekday
  | month
  | mday
  | year
  | hour
  | minute
  | second
  deriving DecidableEq

def conversion (c : Char) : Option TimeConversion :=
  if c = 'a' then some .weekday
  else if c = 'b' then some .month
  else if c = 'd' then some .mday
  else if c = 'Y' then some .year
  else if c = 'H' then some .hour
  else if c = 'M' then some .minute
  else if c = 'S' then some .second
  else none

def plainConversion (c : Char) : TimeConversion :=
  if isSpace (ascii c) then .blanks else .literal (ascii c)

/-- `none` for a format with other conversions. -/
def timeFormat : List Char → Option (List TimeConversion)
  | [] => some []
  | [c] => if c = '%' then none else some [plainConversion c]
  | c :: d :: format =>
    if c = '%' then
      match conversion d with
      | none => none
      | some conv => (timeFormat format).map (conv :: ·)
    else (timeFormat (d :: format)).map (plainConversion c :: ·)

def weekdayNames : List String :=
  ["Sunday", "Monday", "Tuesday", "Wednesday", "Thursday", "Friday", "Saturday"]

def monthNames : List String :=
  ["January", "February", "March", "April", "May", "June", "July", "August", "September", "October",
    "November", "December"]

def abbreviation (name : String) : List Byte := (text name).take 3

def lower (b : Byte) : Byte := if 65 ≤ b ∧ b ≤ 90 then b + 32 else b

def takeName : List Byte → List Byte → Option (List Byte)
  | [], s => some s
  | _ :: _, [] => none
  | c :: name, b :: s => if lower b = lower c then takeName name s else none

structure NameFound where
  length : ℕ
  index : ℕ
  rest : List Byte

def NameFound.longest (best : Option NameFound) (found : NameFound) : Option NameFound :=
  match best with
  | none => some found
  | some b => if b.length < found.length then some found else some b

def readName (names : List String) (s : List Byte) : Option (ℕ × List Byte) :=
  let found := names.zipIdx.flatMap fun (name, i) =>
    [text name, abbreviation name].filterMap fun n => (takeName n s).map fun rest => ⟨n.length, i, rest⟩
  (found.foldl NameFound.longest none).map fun f => (f.index, f.rest)

def takeNumber (high : ℕ) : ℕ → ℕ → List Byte → ℕ × List Byte
  | 0, n, s => (n, s)
  | _, n, [] => (n, [])
  | width + 1, n, b :: s =>
    if 10 * n ≤ high ∧ isDigit b = true then takeNumber high width (10 * n + digit b) s else (n, b :: s)

/-- The search for a day of the week. An abbreviation that is found moves the place where the search
goes on, too. -/
structure DaySearch where
  offset : ℕ
  rest : List Byte
  best : Option NameFound

def DaySearch.day (d : DaySearch) (name : String × ℕ) : DaySearch :=
  let found := [text name.1, abbreviation name.1].filterMap fun n =>
    (takeName n d.rest).map fun rest => ⟨d.offset + n.length, name.2, rest⟩
  let best := found.foldl NameFound.longest d.best
  match takeName (abbreviation name.1) d.rest with
  | none => { d with best := best }
  | some rest => ⟨d.offset + 3, rest, best⟩

def readDay (s : List Byte) : Option (ℕ × List Byte) :=
  (weekdayNames.zipIdx.foldl DaySearch.day ⟨0, s, none⟩).best.map fun f => (f.index, f.rest)

def readNumber (low high width : ℕ) (s : List Byte) : Option (ℕ × List Byte) :=
  match s.dropWhile isSpace with
  | [] => none
  | b :: s =>
    if isDigit b = false then none else
    let r := takeNumber high width 0 (b :: s)
    if r.1 < low ∨ high < r.1 then none else some r

def TimeConversion.read (s : List Byte) (tm : RlTime) : TimeConversion → Option (RlTime × List Byte)
  | blanks => some (tm, s.dropWhile isSpace)
  | literal b =>
    match s with
    | [] => none
    | c :: s => if c = b then some (tm, s) else none
  | weekday => (readDay s).map fun r => ({ tm with tmWday := r.1 }, r.2)
  | month => (readName monthNames s).map fun r => ({ tm with tmMon := r.1 }, r.2)
  | mday => (readNumber 1 31 2 s).map fun r => ({ tm with tmMday := r.1 }, r.2)
  | year => (readNumber 0 9999 4 s).map fun r => ({ tm with tmYear := r.1 - 1900 }, r.2)
  | hour => (readNumber 0 23 2 s).map fun r => ({ tm with tmHour := r.1 }, r.2)
  | minute => (readNumber 0 59 2 s).map fun r => ({ tm with tmMin := r.1 }, r.2)
  | second => (readNumber 0 61 2 s).map fun r => ({ tm with tmSec := r.1 }, r.2)

/-- The fields that are read before a mismatch stay as they were set. -/
def readTimeFields : List TimeConversion → List Byte → RlTime → RlTime × Bool
  | [], _, tm => (tm, true)
  | conv :: format, s, tm =>
    match conv.read s tm with
    | none => (tm, false)
    | some (tm, s) => readTimeFields format s tm

def monYday (year : ℕ) : List ℕ :=
  if IsLeap year then [0, 31, 60, 91, 121, 152, 182, 213, 244, 274, 305, 335]
  else [0, 31, 59, 90, 120, 151, 181, 212, 243, 273, 304, 334]

def dayOfTheYear (tm : RlTime) : ℤ :=
  (monYday (1900 + tm.tmYear).toNat).getD tm.tmMon.toNat 0 + (tm.tmMday - 1)

/-- Where the format has a date, the day of the year is computed from it; the day of the week would
be too if the format had none. -/
def strptime (s : List Byte) (format : String) (tm : RlTime) : RlTime × Bool :=
  match timeFormat format.toList with
  | none => (tm, false)
  | some convs =>
    let r := readTimeFields convs s tm
    if r.2 = true ∧ TimeConversion.mday ∈ convs then ({ r.1 with tmYday := dayOfTheYear r.1 }, true)
    else r

theorem dateFormat_conversions : timeFormat dateFormat.toList = some
    [.weekday, .literal 44, .blanks, .mday, .blanks, .month, .blanks, .year, .blanks, .hour,
      .literal 58, .minute, .literal 58, .second, .blanks, .literal 71, .literal 77, .literal 84] := by
  decide

theorem readDay_abbreviation {i : ℕ} (hi : i < 7) (rest : List Byte) :
    readDay (abbreviation (weekdayNames.getD i "") ++ 44 :: rest) = some (i, 44 :: rest) := by
  interval_cases i <;> rfl

theorem readName_month {i : ℕ} (hi : i < 12) (rest : List Byte) :
    readName monthNames (abbreviation (monthNames.getD i "") ++ 32 :: rest) =
      some (i, 32 :: rest) := by
  interval_cases i <;> rfl

section Numbers

variable {low high n width : ℕ}

theorem takeNumber_digits {ds : List Byte} (hds : ∀ b ∈ ds, isDigit b = true) {v : ℕ}
    (hhigh : ds.foldl (fun v b => 10 * v + digit b) v ≤ high) (rest : List Byte) :
    takeNumber high ds.length v (ds ++ rest) = (ds.foldl (fun v b => 10 * v + digit b) v, rest) := by
  induction ds generalizing v with
  | nil => rfl
  | cons b ds ih =>
    rw [List.foldl_cons] at hhigh
    have hle := le_foldl_value ds (10 * v + digit b)
    have htakes : 10 * v ≤ high ∧ isDigit b = true := ⟨by omega, hds b List.mem_cons_self⟩
    rw [List.length_cons, List.cons_append, takeNumber, if_pos htakes, List.foldl_cons]
    exact ih (fun d hd => hds d (List.mem_cons_of_mem b hd)) hhigh

theorem readNumber_padded (hwidth : 0 < width) (hn : n < 10 ^ width) (hlow : low ≤ n) (hhigh : n ≤ high)
    (rest : List Byte) : readNumber low high width (signedDecimal width n ++ rest) = some (n, rest) := by
  have hdigits : ∀ b ∈ signedDecimal width n, isDigit b = true :=
    fun b hb => isDigit_iff.mpr (padded_digits hb)
  have hlength := signedDecimal_length hwidth hn
  have hvalue := value_padded width n
  rw [value] at hvalue
  have htake := takeNumber_digits hdigits (hvalue.symm ▸ hhigh) rest
  rw [hvalue, hlength] at htake
  obtain ⟨b, ds, hds⟩ := List.exists_cons_of_ne_nil (padded_ne_nil width n)
  rw [hds] at htake hdigits ⊢
  have hb := hdigits b List.mem_cons_self
  have hblank : isSpace b = false := digit_not_space ((isDigit_iff.mp hb).trans (by decide))
  have hrange : ¬ (n < low ∨ high < n) := by omega
  rw [List.cons_append] at htake ⊢
  simp only [readNumber, List.dropWhile_cons, hblank, Bool.false_eq_true, ↓reduceIte, hb,
    Bool.true_eq_false, htake, hrange]

end Numbers

section HttpDate

def httpDate (c : CivilTime) : List Byte :=
  abbreviation (weekdayNames.getD c.weekday "") ++ text ", " ++ signedDecimal 2 c.day ++ text " " ++
    abbreviation (monthNames.getD (c.month - 1) "") ++ text " " ++ signedDecimal 4 c.year ++ text " " ++
    signedDecimal 2 c.hour ++ text ":" ++ signedDecimal 2 c.minute ++ text ":" ++
    signedDecimal 2 c.second ++ text " GMT"

def brokenDown (c : CivilTime) : RlTime :=
  ⟨c.second, c.minute, c.hour, c.day, c.month - 1, c.year - 1900, c.weekday, c.yearDay, 0, 0, 0⟩

variable {c : CivilTime}

theorem httpDate_eq (c : CivilTime) (rest : List Byte) : httpDate c ++ rest =
    abbreviation (weekdayNames.getD c.weekday "") ++ 44 :: 32 :: (signedDecimal 2 c.day ++ 32 ::
      (abbreviation (monthNames.getD (c.month - 1) "") ++ 32 :: (signedDecimal 4 c.year ++ 32 ::
      (signedDecimal 2 c.hour ++ 58 :: (signedDecimal 2 c.minute ++ 58 ::
      (signedDecimal 2 c.second ++ 32 :: 71 :: 77 :: 84 :: rest)))))) := by
  simp only [httpDate, List.append_assoc]
  rfl

theorem dropWhile_blank {s : List Byte} (h : Stops isSpace s) : (32 :: s).dropWhile isSpace = s := by
  have hspace : isSpace 32 = true := by decide
  rw [List.dropWhile_cons_of_pos hspace, h.dropWhile]

theorem stops_number (width n : ℕ) (rest : List Byte) : Stops isSpace (signedDecimal width n ++ rest) :=
  stops_append (padded_ne_nil width n) fun _ hb => digit_not_space ((padded_digits hb).trans (by decide))

theorem stops_month {i : ℕ} (hi : i < 12) (rest : List Byte) :
    Stops isSpace (abbreviation (monthNames.getD i "") ++ rest) := by
  have hall : ∀ i < 12, abbreviation (monthNames.getD i "") ≠ [] ∧
      (abbreviation (monthNames.getD i "")).all (fun b => decide (isSpace b = false)) = true := by decide
  exact stops_append (hall i hi).1 (forall_of_all (hall i hi).2)

theorem monYday_month (year : ℕ) {month : ℕ} (h : 1 ≤ month ∧ month ≤ 12) :
    (monYday year).getD (month - 1) 0 = CivilTime.daysBeforeMonth year month := by
  obtain ⟨hlow, hhigh⟩ := h
  by_cases hleap : IsLeap year
  · interval_cases month <;>
      simp [monYday, hleap, CivilTime.daysBeforeMonth, before, Finset.sum_range_succ, monthLength]
  · interval_cases month <;>
      simp [monYday, hleap, CivilTime.daysBeforeMonth, before, Finset.sum_range_succ, monthLength]

theorem dayOfTheYear_valid (hv : c.Valid) : dayOfTheYear (brokenDown c) = c.yearDay := by
  have hyear : (1900 + ((c.year : ℤ) - 1900)).toNat = c.year := by omega
  have hmonth : ((c.month : ℤ) - 1).toNat = c.month - 1 := by omega
  have hday := hv.day
  simp only [dayOfTheYear, brokenDown, hyear, hmonth, monYday_month c.year hv.month, CivilTime.yearDay]
  omega

theorem strptime_httpDate (hv : c.Valid) (hyear : c.year < 10000) (rest : List Byte) :
    strptime (httpDate c ++ rest) dateFormat .zero = (brokenDown c, true) := by
  have hweekday : c.weekday < 7 := Nat.mod_lt _ (by decide)
  have hmonth : c.month - 1 < 12 := by
    have := hv.month
    omega
  have hlast : monthLength c.year c.month ≤ 31 := by
    rw [monthLength]
    split_ifs <;> decide
  have hdays := hv.day
  have hhours := hv.hour
  have hminutes := hv.minute
  have hseconds := hv.second
  have hday (rest : List Byte) : readNumber 1 31 2 (signedDecimal 2 c.day ++ rest) = some (c.day, rest) :=
    readNumber_padded (by decide) (by omega) (by omega) (by omega) rest
  have hyears (rest : List Byte) :
      readNumber 0 9999 4 (signedDecimal 4 c.year ++ rest) = some (c.year, rest) :=
    readNumber_padded (by decide) (by omega) (by omega) (by omega) rest
  have hhour (rest : List Byte) : readNumber 0 23 2 (signedDecimal 2 c.hour ++ rest) = some (c.hour, rest) :=
    readNumber_padded (by decide) (by omega) (by omega) (by omega) rest
  have hminute (rest : List Byte) :
      readNumber 0 59 2 (signedDecimal 2 c.minute ++ rest) = some (c.minute, rest) :=
    readNumber_padded (by decide) (by omega) (by omega) (by omega) rest
  have hsecond (rest : List Byte) :
      readNumber 0 61 2 (signedDecimal 2 c.second ++ rest) = some (c.second, rest) :=
    readNumber_padded (by decide) (by omega) (by omega) (by omega) rest
  have hzone : Stops isSpace (71 :: 77 :: 84 :: rest) := by
    rintro b ⟨rfl⟩
    decide
  have hmonthNumber : ((c.month - 1 : ℕ) : ℤ) = (c.month : ℤ) - 1 := by
    have := hv.month
    omega
  have hfields := dayOfTheYear_valid hv
  rw [httpDate_eq, strptime, dateFormat_conversions]
  simp only [readTimeFields, TimeConversion.read, readDay_abbreviation hweekday, Option.map_some, ↓reduceIte,
    dropWhile_blank (stops_number _ _ _), hday, dropWhile_blank (stops_month hmonth _),
    readName_month hmonth, hyears, hhour, hminute, hsecond, dropWhile_blank hzone, hmonthNumber]
  rw [if_pos ⟨trivial, by decide⟩]
  exact congrArg (fun day : ℤ => (({ brokenDown c with tmYday := day } : RlTime), true)) hfields

end HttpDate

end RlLibrary.Time
