import Mathlib.Algebra.BigOperators.Group.Finset.Basic
import Mathlib.Algebra.Order.BigOperators.Group.Finset

/-!
The proleptic Gregorian calendar in UTC without leap seconds, from the beginning of 1970 on: the
instants follow each other second by second, and are counted by the lengths of the years, the
months and the days.
-/

namespace RlLibrary.Foundation

section Periods

variable {lengths : ℕ → ℕ} {i j r s : ℕ}

def before (lengths : ℕ → ℕ) (i : ℕ) : ℕ := ∑ k ∈ Finset.range i, lengths k

theorem before_succ (lengths : ℕ → ℕ) (i : ℕ) :
    before lengths (i + 1) = before lengths i + lengths i :=
  Finset.sum_range_succ lengths i

theorem before_mono (lengths : ℕ → ℕ) (h : i ≤ j) : before lengths i ≤ before lengths j :=
  Finset.sum_le_sum_of_subset (Finset.range_mono h)

theorem place_lt (hr : r < lengths i) (hij : i < j) : before lengths i + r < before lengths j := by
  have hnext := before_succ lengths i
  have hmono := before_mono lengths (Nat.succ_le_of_lt hij)
  rw [Nat.succ_eq_add_one] at hmono
  omega

theorem place_injective (lengths : ℕ → ℕ) (hr : r < lengths i) (hs : s < lengths j)
    (h : before lengths i + r = before lengths j + s) : i = j ∧ r = s := by
  have hij : i = j := by
    rcases Nat.lt_trichotomy i j with hlt | heq | hlt
    · have hplace := place_lt hr hlt
      omega
    · exact heq
    · have hplace := place_lt hs hlt
      omega
  subst hij
  exact ⟨rfl, Nat.add_left_cancel h⟩

end Periods

def IsLeap (year : ℕ) : Prop := year % 4 = 0 ∧ year % 100 ≠ 0 ∨ year % 400 = 0

instance (year : ℕ) : Decidable (IsLeap year) := inferInstanceAs (Decidable (_ ∨ _))

def yearLength (year : ℕ) : ℕ := if IsLeap year then 366 else 365

def monthLength (year month : ℕ) : ℕ :=
  if month = 2 then if IsLeap year then 29 else 28
  else if month = 4 ∨ month = 6 ∨ month = 9 ∨ month = 11 then 30 else 31

structure CivilTime where
  year : ℕ
  month : ℕ
  day : ℕ
  hour : ℕ
  minute : ℕ
  second : ℕ
  deriving DecidableEq

namespace CivilTime

structure Valid (c : CivilTime) : Prop where
  year : 1970 ≤ c.year
  month : 1 ≤ c.month ∧ c.month ≤ 12
  day : 1 ≤ c.day ∧ c.day ≤ monthLength c.year c.month
  hour : c.hour < 24
  minute : c.minute < 60
  second : c.second < 60

def epoch : CivilTime := ⟨1970, 1, 1, 0, 0, 0⟩

def next (c : CivilTime) : CivilTime :=
  if c.second < 59 then { c with second := c.second + 1 }
  else if c.minute < 59 then { c with minute := c.minute + 1, second := 0 }
  else if c.hour < 23 then { c with hour := c.hour + 1, minute := 0, second := 0 }
  else if c.day < monthLength c.year c.month then ⟨c.year, c.month, c.day + 1, 0, 0, 0⟩
  else if c.month < 12 then ⟨c.year, c.month + 1, 1, 0, 0, 0⟩
  else ⟨c.year + 1, 1, 1, 0, 0, 0⟩

def breakdown : ℕ → CivilTime
  | 0 => epoch
  | t + 1 => (breakdown t).next

def daysBeforeYear (year : ℕ) : ℕ := before (fun k => yearLength (1970 + k)) (year - 1970)

def daysBeforeMonth (year month : ℕ) : ℕ := before (fun k => monthLength year (k + 1)) (month - 1)

def yearDay (c : CivilTime) : ℕ := daysBeforeMonth c.year c.month + (c.day - 1)

def days (c : CivilTime) : ℕ := daysBeforeYear c.year + c.yearDay

def weekday (c : CivilTime) : ℕ := (c.days + 4) % 7

def seconds (c : CivilTime) : ℕ := ((c.days * 24 + c.hour) * 60 + c.minute) * 60 + c.second

variable {c d : CivilTime} {year month : ℕ}

theorem daysBeforeYear_succ (h : 1970 ≤ year) :
    daysBeforeYear (year + 1) = daysBeforeYear year + yearLength year := by
  have hindex : year + 1 - 1970 = year - 1970 + 1 := by omega
  rw [daysBeforeYear, hindex, before_succ, Nat.add_sub_cancel' h, daysBeforeYear]

theorem daysBeforeMonth_succ (year : ℕ) (h : 1 ≤ month) :
    daysBeforeMonth year (month + 1) = daysBeforeMonth year month + monthLength year month := by
  have hindex : month + 1 - 1 = month - 1 + 1 := by omega
  rw [daysBeforeMonth, hindex, before_succ, Nat.sub_add_cancel h, daysBeforeMonth]

theorem months_fill_year (year : ℕ) : daysBeforeMonth year 13 = yearLength year := by
  by_cases hleap : IsLeap year
  · simp [daysBeforeMonth, before, Finset.sum_range_succ, monthLength, yearLength, hleap]
  · simp [daysBeforeMonth, before, Finset.sum_range_succ, monthLength, yearLength, hleap]

theorem yearDay_lt (h : c.Valid) : c.yearDay < yearLength c.year := by
  have hmonth := h.month
  have hday := h.day
  have hsucc := daysBeforeMonth_succ c.year h.month.1
  have hmono : daysBeforeMonth c.year (c.month + 1) ≤ daysBeforeMonth c.year 13 :=
    before_mono _ (by omega)
  rw [months_fill_year] at hmono
  rw [yearDay]
  omega

theorem days_next (h : c.Valid) (hsecond : ¬ c.second < 59) (hminute : ¬ c.minute < 59)
    (hhour : ¬ c.hour < 23) : c.next.Valid ∧ c.next.days = c.days + 1 ∧
      c.next.hour = 0 ∧ c.next.minute = 0 ∧ c.next.second = 0 := by
  have hmonth := h.month
  have hday := h.day
  have hlength (year month : ℕ) : 1 ≤ monthLength year month := by
    rw [monthLength]
    split_ifs <;> decide
  simp only [next, hsecond, hminute, hhour, ↓reduceIte]
  split_ifs with htomorrow hlast
  · refine ⟨⟨h.year, hmonth, ⟨by simp, htomorrow⟩, by simp, by simp, by simp⟩, ?_, rfl, rfl, rfl⟩
    simp only [days, yearDay]
    omega
  · refine ⟨⟨h.year, ⟨by simp, hlast⟩, ⟨by simp, hlength _ _⟩, by simp, by simp, by simp⟩, ?_,
      rfl, rfl, rfl⟩
    have hsucc := daysBeforeMonth_succ c.year hmonth.1
    simp only [days, yearDay, hsucc]
    omega
  · refine ⟨⟨Nat.le_succ_of_le h.year, by simp, ⟨by simp, hlength _ _⟩, by simp, by simp, by simp⟩,
      ?_, rfl, rfl, rfl⟩
    have hyear := daysBeforeYear_succ h.year
    have htwelve : c.month = 12 := by omega
    have hfill : daysBeforeMonth c.year 12 + monthLength c.year 12 = yearLength c.year := by
      rw [← months_fill_year]
      exact (daysBeforeMonth_succ c.year (by decide)).symm
    have hfirst : daysBeforeMonth (c.year + 1) 1 = 0 := rfl
    rw [htwelve] at hday htomorrow
    simp only [days, yearDay, hyear, hfirst, htwelve]
    omega

theorem next_counts (h : c.Valid) : c.next.Valid ∧ c.next.seconds = c.seconds + 1 := by
  have hsecond := h.second
  have hminute := h.minute
  have hhour := h.hour
  by_cases hs : c.second < 59
  · rw [next, if_pos hs]
    exact ⟨⟨h.year, h.month, h.day, h.hour, h.minute, Nat.succ_lt_succ hs⟩, rfl⟩
  by_cases hm : c.minute < 59
  · rw [next, if_neg hs, if_pos hm]
    refine ⟨⟨h.year, h.month, h.day, h.hour, Nat.succ_lt_succ hm, by simp⟩, ?_⟩
    simp only [seconds, days, yearDay]
    omega
  by_cases hh : c.hour < 23
  · rw [next, if_neg hs, if_neg hm, if_pos hh]
    refine ⟨⟨h.year, h.month, h.day, Nat.succ_lt_succ hh, by simp, by simp⟩, ?_⟩
    simp only [seconds, days, yearDay]
    omega
  obtain ⟨hvalid, hdays, hour, minute, second⟩ := days_next h hs hm hh
  refine ⟨hvalid, ?_⟩
  simp only [seconds, hdays, hour, minute, second]
  omega

theorem breakdown_counts (t : ℕ) : (breakdown t).Valid ∧ (breakdown t).seconds = t := by
  induction t with
  | zero => exact ⟨⟨by decide, by decide, by decide, by decide, by decide, by decide⟩, rfl⟩
  | succ t ih =>
    obtain ⟨hvalid, hseconds⟩ := next_counts ih.1
    exact ⟨hvalid, hseconds.trans (congrArg _ ih.2)⟩

theorem breakdown_injective {t t' : ℕ} (h : breakdown t = breakdown t') : t = t' := by
  rw [← (breakdown_counts t).2, h, (breakdown_counts t').2]

theorem seconds_injective (hc : c.Valid) (hd : d.Valid) (h : c.seconds = d.seconds) : c = d := by
  have hcsecond := hc.second
  have hdsecond := hd.second
  have hcminute := hc.minute
  have hdminute := hd.minute
  have hchour := hc.hour
  have hdhour := hd.hour
  have hcday := hc.day
  have hdday := hd.day
  have hcyear := hc.year
  have hdyear := hd.year
  have hcmonth := hc.month
  have hdmonth := hd.month
  simp only [seconds] at h
  have hdays : c.days = d.days := by omega
  have hyear : c.year - 1970 = d.year - 1970 ∧ c.yearDay = d.yearDay := by
    have hcin : c.yearDay < yearLength (1970 + (c.year - 1970)) := by
      rw [Nat.add_sub_cancel' hc.year]
      exact yearDay_lt hc
    have hdin : d.yearDay < yearLength (1970 + (d.year - 1970)) := by
      rw [Nat.add_sub_cancel' hd.year]
      exact yearDay_lt hd
    exact place_injective (fun k => yearLength (1970 + k)) hcin hdin hdays
  obtain ⟨hyears, hyearDay⟩ := hyear
  have hsame : c.year = d.year := by omega
  have hmonths : c.month - 1 = d.month - 1 ∧ c.day - 1 = d.day - 1 := by
    have hcin : c.day - 1 < monthLength c.year (c.month - 1 + 1) := by
      rw [Nat.sub_add_cancel hc.month.1]
      omega
    have hdin : d.day - 1 < monthLength c.year (d.month - 1 + 1) := by
      rw [Nat.sub_add_cancel hd.month.1, hsame]
      omega
    rw [yearDay, yearDay, ← hsame] at hyearDay
    exact place_injective (fun k => monthLength c.year (k + 1)) hcin hdin hyearDay
  obtain ⟨year, month, day, hour, minute, second⟩ := c
  obtain ⟨year', month', day', hour', minute', second'⟩ := d
  simp only [mk.injEq] at *
  omega

theorem breakdown_seconds (h : c.Valid) : breakdown c.seconds = c :=
  seconds_injective (breakdown_counts _).1 h (breakdown_counts _).2

theorem seconds_lt_year (h : c.Valid) (hyear : 1970 ≤ year) :
    c.seconds < (⟨year, 1, 1, 0, 0, 0⟩ : CivilTime).seconds ↔ c.year < year := by
  have hin := yearDay_lt h
  have hhour := h.hour
  have hminute := h.minute
  have hsecond := h.second
  have hstart : (⟨year, 1, 1, 0, 0, 0⟩ : CivilTime).days = daysBeforeYear year := by
    simp [days, yearDay, daysBeforeMonth, before]
  simp only [seconds, hstart]
  have hdays : c.days = daysBeforeYear c.year + c.yearDay := rfl
  constructor
  · intro hlt
    by_contra hge
    have hmono : daysBeforeYear year ≤ daysBeforeYear c.year := before_mono _ (by omega)
    omega
  · intro hlt
    have hmono : daysBeforeYear (c.year + 1) ≤ daysBeforeYear year := before_mono _ (by omega)
    rw [daysBeforeYear_succ h.year] at hmono
    omega

theorem exists_breakdown (hyear : 1970 ≤ year) :
    (∃ t < (⟨year, 1, 1, 0, 0, 0⟩ : CivilTime).seconds, breakdown t = c) ↔
      c.Valid ∧ c.year < year := by
  constructor
  · rintro ⟨t, ht, rfl⟩
    obtain ⟨hvalid, hseconds⟩ := breakdown_counts t
    rw [← hseconds, seconds_lt_year hvalid hyear] at ht
    exact ⟨hvalid, ht⟩
  · rintro ⟨hvalid, hlt⟩
    exact ⟨c.seconds, (seconds_lt_year hvalid hyear).mpr hlt, breakdown_seconds hvalid⟩

example : (⟨2201, 1, 1, 0, 0, 0⟩ : CivilTime).seconds = 7289654400 := by decide +kernel

end CivilTime

end RlLibrary.Foundation
