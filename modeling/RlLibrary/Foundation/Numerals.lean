import RlLibrary.Foundation.Reading

namespace RlLibrary.Foundation

open Traced

structure Numeral where
  minus : Bool
  digits : List Byte
  nonempty : digits ≠ []
  decimal : ∀ b ∈ digits, isDigit b = true

namespace Numeral

def bytes (n : Numeral) : List Byte := if n.minus then 45 :: n.digits else n.digits

def denotes (n : Numeral) : ℤ :=
  if n.minus then -(value 10 n.digits : ℤ) else value 10 n.digits

def FitsInt (n : Numeral) : Prop := -2 ^ 31 ≤ n.denotes ∧ n.denotes < 2 ^ 31

theorem not_digit {b : Byte} (h : isDigit b = true) : isSpace b = false ∧ b ≠ 0 ∧ b ≠ 43 ∧ b ≠ 45 := by
  simp only [isDigit, decide_eq_true_eq, UInt8.le_iff_toNat_le] at h
  have h48 : (48 : Byte).toNat = 48 := rfl
  have h13 : (13 : Byte).toNat = 13 := rfl
  refine ⟨?_, ?_, ?_, ?_⟩
  · simp only [isSpace, decide_eq_false_iff_not, UInt8.le_iff_toNat_le]
    rintro (rfl | hspace)
    · exact absurd h (by decide)
    · omega
  all_goals
    rintro rfl
    exact absurd h (by decide)

theorem bytes_injective {m n : Numeral} (h : m.bytes = n.bytes) : m = n := by
  have hclash {m n : Numeral} : 45 :: m.digits ≠ n.digits := fun heq =>
    (not_digit (n.decimal 45 (heq ▸ List.mem_cons_self))).2.2.2 rfl
  obtain ⟨minus, digits, _, _⟩ := m
  obtain ⟨minus', digits', _, _⟩ := n
  cases minus <;> cases minus'
  · congr
  · exact absurd h.symm hclash
  · exact absurd h hclash
  · congr
    exact List.cons_inj_right 45 |>.mp h

theorem bytes_nonzero (n : Numeral) : 0 ∉ n.bytes := by
  have hdigits : 0 ∉ n.digits := fun h => (not_digit (n.decimal 0 h)).2.1 rfl
  rw [bytes]
  split_ifs
  · exact List.not_mem_cons_of_ne_of_not_mem (by decide) hdigits
  · exact hdigits

theorem bytes_ne_nil (n : Numeral) : n.bytes ≠ [] := by
  rw [bytes]
  split_ifs
  · exact List.cons_ne_nil _ _
  · exact n.nonempty

theorem exists_minus {t : List Byte} :
    (∃ n : Numeral, n.bytes = 45 :: t) ↔ t ≠ [] ∧ ∀ b ∈ t, isDigit b = true := by
  constructor
  · rintro ⟨n, hn⟩
    rw [bytes] at hn
    split_ifs at hn
    · obtain rfl := List.cons_injective hn
      exact ⟨n.nonempty, n.decimal⟩
    · exact absurd rfl (not_digit (n.decimal 45 (hn ▸ List.mem_cons_self))).2.2.2
  · rintro ⟨hne, hdigits⟩
    exact ⟨⟨true, t, hne, hdigits⟩, rfl⟩

theorem exists_plain {c : Byte} (hc : c ≠ 45) {t : List Byte} :
    (∃ n : Numeral, n.bytes = c :: t) ↔ ∀ b ∈ c :: t, isDigit b = true := by
  constructor
  · rintro ⟨n, hn⟩
    rw [bytes] at hn
    split_ifs at hn
    · exact absurd (List.head_eq_of_cons_eq hn).symm hc
    · exact hn ▸ n.decimal
  · exact fun hdigits => ⟨⟨false, c :: t, List.cons_ne_nil c t, hdigits⟩, rfl⟩

/-- `strtol` stops at the limits of a `long`. -/
def long (n : Numeral) : ℤ := max (-2 ^ 63) (min n.denotes (2 ^ 63 - 1))

theorem scan_digits (n : Numeral) (rest : List Byte) (i : ℕ) :
    (scan (fun b => isDigit b = false) (n.digits ++ 0 :: rest) i).value = i + n.digits.length := by
  have hdigits : ∀ b ∈ n.digits, decide (isDigit b = false) = false := fun b hb => by
    simp [n.decimal b hb]
  rw [scan_run hdigits (by decide)]

theorem atoi_numeral (n : Numeral) (rest : List Byte) :
    (atoi (n.bytes ++ 0 :: rest)).value = (BitVec.ofInt 32 n.long).toInt := by
  have hstart {b : Byte} (hb : isSpace b = false) (s : List Byte) :
      (scan (fun b => isSpace b = false) (b :: s) 0).value = 0 := by
    rw [scan, if_pos (by simpa using hb)]
    rfl
  cases hminus : n.minus with
  | true =>
    have hbytes : n.bytes ++ 0 :: rest = 45 :: (n.digits ++ 0 :: rest) := by
      simp [bytes, hminus]
    have hvalue : n.long = max (-(value 10 n.digits : ℤ)) (-2 ^ 63) := by
      simp only [long, denotes, hminus, ↓reduceIte]
      omega
    rw [hbytes, hvalue]
    simp only [atoi, bind_value, hstart (show isSpace 45 = false by decide), peek, pure,
      List.getD_cons_zero, true_or, ↓reduceIte, Nat.zero_add, List.drop_succ_cons, List.drop_zero,
      scan_digits, Nat.add_comm 1, List.take_succ_cons, List.take_left]
  | false =>
    obtain ⟨d, ds, hds⟩ := List.exists_cons_of_ne_nil n.nonempty
    have hd := not_digit (n.decimal d (hds ▸ List.mem_cons_self))
    have hbytes : n.bytes ++ 0 :: rest = n.digits ++ 0 :: rest := by
      simp [bytes, hminus]
    have hfirst : (n.digits ++ 0 :: rest).getD 0 0 = d := by simp [hds]
    have hspace : (scan (fun b => isSpace b = false) (n.digits ++ 0 :: rest) 0).value = 0 := by
      rw [hds]
      exact hstart hd.1 _
    have hvalue : n.long = min (value 10 n.digits : ℤ) (2 ^ 63 - 1) := by
      simp only [long, denotes, hminus, Bool.false_eq_true, ↓reduceIte]
      omega
    rw [hbytes, hvalue]
    simp only [atoi, bind_value, hspace, peek, pure, hfirst, hd.2.2.1, hd.2.2.2, or_self,
      ↓reduceIte, List.drop_zero, scan_digits, Nat.zero_add, List.take_left]

theorem atoi_exact_iff (n : Numeral) (rest : List Byte) :
    (atoi (n.bytes ++ 0 :: rest)).value = n.denotes ↔ n.FitsInt := by
  rw [atoi_numeral, FitsInt]
  constructor
  · intro h
    rw [← h]
    exact ⟨BitVec.le_toInt _, BitVec.toInt_lt⟩
  · rintro ⟨hlow, hhigh⟩
    have hlong : n.long = n.denotes := by
      rw [long]
      omega
    rw [hlong, BitVec.toInt_ofInt]
    apply Int.bmod_eq_of_le
    · omega
    · omega

end Numeral

end RlLibrary.Foundation
