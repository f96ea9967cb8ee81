import Mathlib.Algebra.Group.Nat.Defs
import Mathlib.Data.List.Basic
import Mathlib.Data.Int.Notation
import RlLibrary.Foundation.CString

namespace RlLibrary.Foundation

/-- The value of a byte as a digit, in bases up to 16; 16 for a byte that is none. -/
def digit (b : Byte) : ℕ :=
  if 48 ≤ b ∧ b ≤ 57 then b.toNat - 48
  else if 97 ≤ b ∧ b ≤ 102 then b.toNat - 87
  else if 65 ≤ b ∧ b ≤ 70 then b.toNat - 55
  else 16

def value (base : ℕ) (ds : List Byte) : ℕ := ds.foldl (fun v b => base * v + digit b) 0

def ascii (c : Char) : Byte := UInt8.ofNat c.toNat

def decimal (n : ℕ) : List Byte := (Nat.toDigits 10 n).map ascii

/-- `%d` of `printf`, with the width of `%0<width>d`. -/
def signedDecimal (width : ℕ) (i : ℤ) : List Byte :=
  let sign : List Byte := if i < 0 then [45] else []
  let ds := decimal i.natAbs
  sign ++ List.replicate (width - sign.length - ds.length) 48 ++ ds

theorem decimal_ne_nil (n : ℕ) : decimal n ≠ [] := by
  rw [decimal, ne_eq, List.map_eq_nil_iff]
  exact Nat.toDigits_ne_nil

theorem decimal_length_le {n k : ℕ} (hk : 0 < k) (h : n < 10 ^ k) : (decimal n).length ≤ k := by
  rw [decimal, List.length_map, Nat.length_toDigits_le_iff (by decide) hk]
  exact h

theorem ascii_digit {c : Char} (h : c.isDigit = true) :
    (ascii c).toNat = c.toNat ∧ 48 ≤ c.toNat ∧ c.toNat ≤ 57 := by
  obtain ⟨hlow, hhigh⟩ := Char.isDigit_iff_toNat.mp h
  have hzero : '0'.toNat = 48 := rfl
  have hnine : '9'.toNat = 57 := rfl
  refine ⟨?_, by omega, by omega⟩
  rw [ascii, UInt8.toNat_ofNat']
  omega

theorem digit_ascii {c : Char} (h : c.isDigit = true) : digit (ascii c) = c.toNat - 48 := by
  obtain ⟨hn, hlow, hhigh⟩ := ascii_digit h
  have hdigit : 48 ≤ ascii c ∧ ascii c ≤ 57 := by
    simp only [UInt8.le_iff_toNat_le, hn]
    exact ⟨hlow, hhigh⟩
  rw [digit, if_pos hdigit, hn]

theorem decimal_digits {n : ℕ} {b : Byte} (hb : b ∈ decimal n) : digit b < 10 := by
  obtain ⟨c, hc, rfl⟩ := List.mem_map.mp hb
  have hdigit := Nat.isDigit_of_mem_toDigits (by decide) (by decide) hc
  rw [digit_ascii hdigit]
  have hrange := ascii_digit hdigit
  omega

theorem value_ascii {cs : List Char} (h : ∀ c ∈ cs, c.isDigit = true) (v : ℕ) :
    (cs.map ascii).foldl (fun v b => 10 * v + digit b) v = Nat.ofDigitChars 10 cs v := by
  induction cs generalizing v with
  | nil => rfl
  | cons c cs ih =>
    rw [List.map_cons, List.foldl_cons, Nat.ofDigitChars_cons, digit_ascii (h c List.mem_cons_self)]
    exact ih (fun d hd => h d (List.mem_cons_of_mem c hd)) _

theorem value_decimal (n : ℕ) : value 10 (decimal n) = n := by
  rw [value, decimal, value_ascii fun c hc => Nat.isDigit_of_mem_toDigits (by decide) (by decide) hc]
  exact Nat.ofDigitChars_ten_toDigits

theorem value_zeros (base k : ℕ) (ds : List Byte) :
    value base (List.replicate k 48 ++ ds) = value base ds := by
  induction k with
  | zero => rfl
  | succ k ih =>
    have hzero : base * 0 + digit 48 = 0 := by
      rw [Nat.mul_zero]
      rfl
    rw [value] at ih ⊢
    rw [List.replicate_succ, List.cons_append, List.foldl_cons, hzero]
    exact ih

section Padded

variable {width n : ℕ}

theorem signedDecimal_nat (width n : ℕ) :
    signedDecimal width n = List.replicate (width - (decimal n).length) 48 ++ decimal n := by
  have hsign : ¬ (n : ℤ) < 0 := by omega
  simp only [signedDecimal, hsign, ↓reduceIte, List.length_nil, Int.natAbs_natCast, Nat.sub_zero,
    List.nil_append]

theorem signedDecimal_length (hwidth : 0 < width) (hn : n < 10 ^ width) :
    (signedDecimal width n).length = width := by
  have hlength := decimal_length_le hwidth hn
  rw [signedDecimal_nat, List.length_append, List.length_replicate, Nat.sub_add_cancel hlength]

theorem padded_digits {b : Byte} (hb : b ∈ signedDecimal width n) : digit b < 10 := by
  rw [signedDecimal_nat] at hb
  rcases List.mem_append.mp hb with hzero | hdigit
  · rw [List.eq_of_mem_replicate hzero]
    decide
  · exact decimal_digits hdigit

theorem padded_ne_nil (width n : ℕ) : signedDecimal width n ≠ [] := by
  rw [signedDecimal_nat]
  exact List.append_ne_nil_of_right_ne_nil _ (decimal_ne_nil n)

theorem value_padded (width n : ℕ) : value 10 (signedDecimal width n) = n := by
  rw [signedDecimal_nat, value_zeros, value_decimal]

theorem signedDecimal_minus {i : ℤ} (hi : i < 0) (width n : ℕ) :
    signedDecimal width i ≠ signedDecimal width n := by
  intro h
  have hminus : (45 : Byte) ∈ signedDecimal width i := by
    simp only [signedDecimal, hi, ↓reduceIte]
    exact List.mem_append_left _ (List.mem_append_left _ List.mem_cons_self)
  rw [h] at hminus
  exact absurd (padded_digits hminus) (by decide)

end Padded

section Signed

variable {i j : ℤ} {width : ℕ} {b : Byte}

theorem signedDecimal_byte (hb : b ∈ signedDecimal width i) : b = 45 ∨ digit b < 10 := by
  simp only [signedDecimal, List.mem_append] at hb
  rcases hb with (hsign | hzero) | hdigit
  · split_ifs at hsign
    · exact Or.inl (List.mem_singleton.mp hsign)
    · cases hsign
  · rw [List.eq_of_mem_replicate hzero]
    exact Or.inr (by decide)
  · exact Or.inr (decimal_digits hdigit)

theorem signedDecimal_stop (hb : b = 45 → False) (hdigit : ¬ digit b < 10) : b ∉ signedDecimal width i :=
  fun h => (signedDecimal_byte h).elim hb hdigit

theorem signedDecimal_injective (h : signedDecimal 0 i = signedDecimal 0 j) : i = j := by
  have hwidth (k n : ℕ) : 0 - k - n = 0 := by omega
  have hsame (hds : decimal i.natAbs = decimal j.natAbs) : i.natAbs = j.natAbs := by
    rw [← value_decimal i.natAbs, hds, value_decimal]
  by_cases hi : i < 0
  · by_cases hj : j < 0
    · simp only [signedDecimal, hi, hj, ↓reduceIte, hwidth, List.replicate_zero, List.append_nil,
        List.append_cancel_left_eq] at h
      have := hsame h
      omega
    · obtain ⟨n, rfl⟩ := Int.eq_ofNat_of_zero_le (Int.not_lt.mp hj)
      exact absurd h (signedDecimal_minus hi 0 n)
  · obtain ⟨m, rfl⟩ := Int.eq_ofNat_of_zero_le (Int.not_lt.mp hi)
    by_cases hj : j < 0
    · exact absurd h.symm (signedDecimal_minus hj 0 m)
    · simp only [signedDecimal, hi, hj, ↓reduceIte, hwidth, List.replicate_zero, List.append_nil,
        List.nil_append] at h
      have := hsame h
      omega

end Signed

section Canonical

variable {n : ℕ} {ds : List Byte}

theorem digit_decimal_iff {b : Byte} : digit b < 10 ↔ 48 ≤ b ∧ b ≤ 57 := by
  constructor
  · intro h
    rw [digit] at h
    split_ifs at h with hdigit hlower hupper
    · exact hdigit
    · have hlow : 97 ≤ b.toNat := hlower.1
      omega
    · have hlow : 65 ≤ b.toNat := hupper.1
      omega
    · omega
  · intro h
    have hhigh : b.toNat ≤ 57 := h.2
    rw [digit, if_pos h]
    omega

theorem decimal_digit {b : Byte} (h : digit b < 10) : decimal (digit b) = [b] := by
  have hb : 48 ≤ b.toNat ∧ b.toNat ≤ 57 := digit_decimal_iff.mp h
  have hall : ∀ v < 58, 48 ≤ v → decimal (digit (UInt8.ofNat v)) = [UInt8.ofNat v] := by decide
  have hdigit := hall b.toNat (by omega) hb.1
  rwa [UInt8.ofNat_toNat] at hdigit

theorem decimal_snoc (hn : 0 < n) {b : Byte} (hb : digit b < 10) :
    decimal (10 * n + digit b) = decimal n ++ [b] := by
  rw [← decimal_digit hb, decimal, decimal, decimal, ← List.map_append,
    Nat.toDigits_append_toDigits (by decide) hn hb]

theorem le_foldl_value (ds : List Byte) (v : ℕ) : v ≤ ds.foldl (fun v b => 10 * v + digit b) v := by
  induction ds generalizing v with
  | nil => exact Nat.le_refl v
  | cons b ds ih =>
    have hrest := ih (10 * v + digit b)
    rw [List.foldl_cons]
    omega

theorem value_snoc (base : ℕ) (ds : List Byte) (b : Byte) :
    value base (ds ++ [b]) = base * value base ds + digit b := by
  rw [value, List.foldl_append]
  rfl

theorem decimal_value_pos (hds : ∀ b ∈ ds, digit b < 10) (hne : ds ≠ [])
    (hhead : ds.head? ≠ some 48) : 0 < value 10 ds ∧ decimal (value 10 ds) = ds := by
  induction ds using List.reverseRecOn with
  | nil => exact absurd rfl hne
  | append_singleton front b ih =>
    have hb := hds b (by simp)
    rw [value_snoc]
    by_cases hfront : front = []
    · subst hfront
      have hzero : b ≠ 48 := fun he => hhead (by simp [he])
      have hpos : digit b ≠ 0 := by
        intro hdigit
        have hsame := decimal_digit hb
        rw [hdigit] at hsame
        exact hzero (List.singleton_injective hsame).symm
      refine ⟨by omega, ?_⟩
      rw [show value 10 [] = 0 from rfl, Nat.mul_zero, Nat.zero_add, decimal_digit hb, List.nil_append]
    · rw [List.head?_append_of_ne_nil _ hfront] at hhead
      obtain ⟨hpos, hsame⟩ := ih (fun d hd => hds d (List.mem_append_left _ hd)) hfront hhead
      exact ⟨by omega, by rw [decimal_snoc hpos hb, hsame]⟩

theorem decimal_head (hn : 0 < n) : (decimal n).head? ≠ some 48 := by
  induction n using Nat.strong_induction_on with
  | _ n ih =>
    by_cases hsmall : n < 10
    · have hall : ∀ n < 10, 0 < n → (decimal n).head? ≠ some 48 := by decide
      exact hall n hsmall hn
    · have hdiv : 0 < n / 10 := Nat.div_pos (by omega) (by decide)
      have happend := Nat.toDigits_append_toDigits (b := 10) (by decide) hdiv (Nat.mod_lt n (by decide))
      rw [Nat.div_add_mod] at happend
      have hfront : decimal (n / 10) ++ decimal (n % 10) = decimal n := by
        rw [decimal, decimal, decimal, ← List.map_append, happend]
      rw [← hfront, List.head?_append_of_ne_nil _ (decimal_ne_nil _)]
      exact ih (n / 10) (by omega) hdiv

theorem decimal_value_ne_iff {b : Byte} (hds : ∀ d ∈ b :: ds, digit d < 10) :
    (ds ≠ [] ∧ digit b = 0) ↔ decimal (value 10 (b :: ds)) ≠ b :: ds := by
  have hb := hds b List.mem_cons_self
  by_cases hzero : digit b = 0
  · have hsame := decimal_digit hb
    rw [hzero] at hsame
    obtain rfl : (48 : Byte) = b := List.singleton_injective hsame
    rw [and_iff_left hzero]
    refine not_congr ⟨?_, fun h => ?_⟩
    · rintro rfl
      rfl
    · rcases Nat.eq_zero_or_pos (value 10 (48 :: ds)) with hv | hv
      · rw [hv] at h
        exact (List.cons.inj h).2.symm
      · have hhead := decimal_head hv
        rw [h] at hhead
        exact absurd rfl hhead
  · have hhead : (b :: ds).head? ≠ some 48 := by
      rintro ⟨rfl⟩
      exact hzero rfl
    have hsame := (decimal_value_pos hds (List.cons_ne_nil b ds) hhead).2
    exact iff_of_false (fun h => hzero h.2) fun h => h hsame

end Canonical

end RlLibrary.Foundation
