import RlLibrary.Foundation.Words

namespace RlLibrary.Foundation

def upperDigit (c : Char) : Byte := ascii c.toUpper

def hexadecimal (width n : ℕ) : List Byte :=
  let ds := (Nat.toDigits 16 n).map upperDigit
  List.replicate (width - ds.length) 48 ++ ds

section Digits

variable {width n : ℕ} {b : Byte}

theorem digit_upperDigit : ∀ n < 16, digit (upperDigit (Nat.digitChar n)) = n := by decide

theorem value_concat (base : ℕ) (ds : List Byte) (b : Byte) :
    value base (ds ++ [b]) = base * value base ds + digit b := by
  rw [value, List.foldl_append]
  rfl

section Mapped

variable {f : Char → Byte} (hf : ∀ n < 16, digit (f (Nat.digitChar n)) = n)
include hf

theorem value_mapped (n : ℕ) : value 16 ((Nat.toDigits 16 n).map f) = n := by
  induction n using Nat.strong_induction_on with
  | _ n ih =>
    by_cases hn : n < 16
    · rw [Nat.toDigits_of_lt_base hn]
      simp [value, hf n hn]
    · have hbase : 16 ≤ n := Nat.not_lt.mp hn
      have hlast := hf (n % 16) (Nat.mod_lt n (by decide))
      rw [Nat.toDigits_of_base_le (by decide) hbase, List.map_append, List.map_singleton,
        value_concat, ih (n / 16) (by omega), hlast]
      omega

theorem mapped_digits {c : Char} (hc : c ∈ Nat.toDigits 16 n) : digit (f c) < 16 := by
  induction n using Nat.strong_induction_on with
  | _ n ih =>
    by_cases hn : n < 16
    · rw [Nat.toDigits_of_lt_base hn, List.mem_singleton] at hc
      rw [hc, hf n hn]
      exact hn
    · rw [Nat.toDigits_of_base_le (by decide) (Nat.not_lt.mp hn), List.mem_append,
        List.mem_singleton] at hc
      rcases hc with hc | rfl
      · exact ih (n / 16) (by omega) hc
      · have hlast := Nat.mod_lt n (show 0 < 16 by decide)
        rw [hf _ hlast]
        exact hlast

end Mapped

theorem value_toDigits (n : ℕ) : value 16 ((Nat.toDigits 16 n).map upperDigit) = n :=
  value_mapped digit_upperDigit n

theorem value_hexadecimal (width n : ℕ) : value 16 (hexadecimal width n) = n := by
  rw [hexadecimal, value_zeros, value_toDigits]

theorem toDigits_digits {c : Char} (hc : c ∈ Nat.toDigits 16 n) : digit (upperDigit c) < 16 :=
  mapped_digits digit_upperDigit hc

theorem hexadecimal_digits (hb : b ∈ hexadecimal width n) : digit b < 16 := by
  rcases List.mem_append.mp hb with hzero | hdigit
  · rw [List.eq_of_mem_replicate hzero]
    decide
  · obtain ⟨c, hc, rfl⟩ := List.mem_map.mp hdigit
    exact toDigits_digits hc

theorem hexadecimal_ne_nil (width n : ℕ) : hexadecimal width n ≠ [] := by
  apply List.append_ne_nil_of_right_ne_nil
  rw [ne_eq, List.map_eq_nil_iff]
  exact Nat.toDigits_ne_nil

end Digits

section Reading

variable {width n : ℕ} {ds rest : List Byte}

theorem ends_stops (h : Ends isSpace rest) : Stops (fun b => digit b < 16) rest :=
  fun b hb => decide_eq_false (space_not_digit (h b hb))

theorem not_mark {b : Byte} (h : digit b < 16 ∨ isSpace b = true) : ¬ (b = 120 ∨ b = 88) := by
  rintro (rfl | rfl)
  · exact absurd h (by decide)
  · exact absurd h (by decide)

theorem takeHexMark_digits (hds : ∀ b ∈ ds, digit b < 16) (hne : ds ≠ []) (hrest : Ends isSpace rest) :
    takeHexMark 16 (ds ++ rest) = (false, ds ++ rest) := by
  rcases ds with _ | ⟨zero, _ | ⟨b, ds⟩⟩
  · exact absurd rfl hne
  · cases rest with
    | nil => rfl
    | cons b rest =>
      have hb := not_mark (Or.inr (hrest b rfl))
      simp only [List.cons_append, List.nil_append, takeHexMark, hb, and_false, ↓reduceIte]
  · have hb := not_mark (Or.inl (hds b (by simp)))
    simp only [List.cons_append, takeHexMark, hb, and_false, ↓reduceIte]

theorem readUnsigned_hexadecimal (hn : n < 2 ^ 64) (hrest : Ends isSpace rest) :
    readUnsigned 16 (hexadecimal width n ++ rest) = some (BitVec.ofNat 64 n, rest) := by
  have hne : hexadecimal width n ++ rest ≠ [] :=
    List.append_ne_nil_of_left_ne_nil (hexadecimal_ne_nil width n) _
  have hds : ∀ b ∈ hexadecimal width n, digit b < 16 := fun b => hexadecimal_digits
  have hsign := takeSign_digit 16 (Nat.le_refl 16) hne fun b hb =>
    hds b (mem_of_head_append (hexadecimal_ne_nil width n) hb)
  have hmark := takeHexMark_digits hds (hexadecimal_ne_nil width n) hrest
  have hdigits : (hexadecimal width n ++ rest).takeWhile (fun b => digit b < 16) =
      hexadecimal width n := by
    exact takeWhile_run (fun b hb => decide_eq_true (hds b hb)) (ends_stops hrest)
  simp only [readUnsigned, hsign, hmark, hdigits, hexadecimal_ne_nil, false_and, ↓reduceIte,
    value_hexadecimal, ge_iff_le, Nat.not_le.mpr hn, Bool.false_eq_true, List.drop_left]

theorem sscanf_hexadecimal (format : List Directive) (hn : n < 2 ^ 64) (hrest : Ends isSpace rest) :
    sscanf (.blanks :: .unsigned 16 :: format) (9 :: (hexadecimal width n ++ rest)) =
      .number (BitVec.ofNat 64 n) :: sscanf format rest := by
  have hstart : Stops isSpace (hexadecimal width n ++ rest) :=
    stops_append (hexadecimal_ne_nil width n) fun b hb => digit_not_space (hexadecimal_digits hb)
  have hdrop : (9 :: (hexadecimal width n ++ rest)).dropWhile isSpace = hexadecimal width n ++ rest := by
    rw [List.dropWhile_cons_of_pos (by decide), hstart.dropWhile]
  simp only [sscanf, hdrop, hstart.dropWhile, readUnsigned_hexadecimal hn hrest]

end Reading

end RlLibrary.Foundation
