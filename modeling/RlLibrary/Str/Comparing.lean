import RlLibrary.Str.Basic

namespace RlLibrary.Str

open Foundation

def memcmp : List Byte → List Byte → ℕ → ℤ
  | a :: as, b :: bs, size + 1 =>
    if a = b then memcmp as bs size else a.toNat - b.toNat
  | _, _, _ => 0

def rlMemcmp (ptr1 ptr2 : Option (List Byte)) (size : ℕ) : ℤ :=
  match ptr1, ptr2 with
  | some a, some b =>
    if rlStrIsempty (some (.ofBuffer a)) ∨ rlStrIsempty (some (.ofBuffer b)) then RL_FAILED else
    if size = 0 then RL_FAILED else memcmp a b size
  | _, _ => RL_FAILED

section Strings

structure OrderLaws (a b c : CString) : Prop where
  equal : rlStrcmp (some a) (some b) = 0 ↔ a = b
  opposite : (rlStrcmp (some b) (some a)).sign = -(rlStrcmp (some a) (some b)).sign
  less : rlStrcmp (some a) (some b) < 0 → rlStrcmp (some b) (some c) < 0 →
    rlStrcmp (some a) (some c) < 0

theorem byte_less (a b : Byte) : (a.toNat : ℤ) - b.toNat < 0 ↔ a < b := by
  rw [UInt8.lt_iff_toNat_lt]
  omega

theorem byte_pos {b : Byte} (hb : 0 ≠ b) : 0 < b.toNat := by
  apply Nat.pos_of_ne_zero
  intro h
  exact hb (UInt8.toNat_inj.mp h).symm

theorem strcmp_swap (a b : List Byte) : strcmp b a = -strcmp a b := by
  induction a generalizing b with
  | nil => cases b <;> simp [strcmp]
  | cons c a ih =>
    cases b with
    | nil => simp [strcmp]
    | cons d b =>
      by_cases hcd : c = d
      · rw [hcd, strcmp, strcmp, if_pos rfl, if_pos rfl]
        exact ih b
      · rw [strcmp, strcmp, if_neg hcd, if_neg (Ne.symm hcd)]
        omega

theorem strcmp_less {a b : List Byte} (hb : 0 ∉ b) : strcmp a b < 0 ↔ a < b := by
  induction a generalizing b with
  | nil =>
    cases b with
    | nil => simp [strcmp]
    | cons d b =>
      rw [List.mem_cons, not_or] at hb
      have hpos := byte_pos hb.1
      refine iff_of_true ?_ (List.nil_lt_cons d b)
      rw [strcmp]
      omega
  | cons c a ih =>
    cases b with
    | nil =>
      refine iff_of_false ?_ (List.not_lt_nil _)
      rw [strcmp]
      omega
    | cons d b =>
      rw [List.mem_cons, not_or] at hb
      rw [List.cons_lt_cons_iff, strcmp]
      by_cases hcd : c = d
      · rw [if_pos hcd, ih hb.2]
        simp [hcd, UInt8.lt_irrefl]
      · rw [if_neg hcd, byte_less]
        simp [hcd]

theorem rlStrcmp_failed {a b : CString} (h : a.bytes = [] ∨ b.bytes = []) :
    rlStrcmp (some a) (some b) = RL_FAILED := by
  have hempty : rlStrIsempty (some a) ∨ rlStrIsempty (some b) := by
    simpa only [rlStrIsempty, List.isEmpty_iff] using h
  rw [rlStrcmp, if_pos hempty]

theorem rlStrcmp_nonempty {a b : CString} (ha : a.bytes ≠ []) (hb : b.bytes ≠ []) :
    rlStrcmp (some a) (some b) = strcmp a.bytes b.bytes := by
  have hfull : ¬ (rlStrIsempty (some a) ∨ rlStrIsempty (some b)) := by
    simp only [rlStrIsempty, List.isEmpty_iff, not_or]
    exact ⟨ha, hb⟩
  rw [rlStrcmp, if_neg hfull]

theorem rlStrcmp_less {a b : CString} (ha : a.bytes ≠ []) (hb : b.bytes ≠ []) :
    rlStrcmp (some a) (some b) < 0 ↔ a.bytes < b.bytes := by
  rw [rlStrcmp_nonempty ha hb]
  exact strcmp_less b.nonzero

/-- An empty string is refused on either side, with a result that means less; on all other
strings the laws hold. -/
theorem rlStrcmp_order (a b c : CString) :
    (OrderLaws a b c ↔ a.bytes ≠ [] ∧ b.bytes ≠ []) ∧
      (a.bytes = [] ∨ b.bytes = [] →
        rlStrcmp (some a) (some b) = RL_FAILED ∧ rlStrcmp (some b) (some a) = RL_FAILED) := by
  refine ⟨⟨fun h => ?_, fun ⟨ha, hb⟩ => ⟨?_, ?_, fun hab hbc => ?_⟩⟩, fun h => ?_⟩
  · by_contra hempty
    rw [← not_or, not_not] at hempty
    have hopposite := h.opposite
    rw [rlStrcmp_failed hempty, rlStrcmp_failed hempty.symm] at hopposite
    exact absurd hopposite (by decide)
  · rw [rlStrcmp_eq_zero, and_iff_left ha]
    exact ⟨fun h => by cases a; cases b; congr, fun h => congrArg _ h⟩
  · rw [rlStrcmp_nonempty ha hb, rlStrcmp_nonempty hb ha, strcmp_swap, Int.sign_neg]
  · by_cases hc : c.bytes = []
    · rw [rlStrcmp_failed (Or.inr hc)]
      decide
    · rw [rlStrcmp_less ha hb] at hab
      rw [rlStrcmp_less hb hc] at hbc
      rw [rlStrcmp_less ha hc]
      exact List.lt_trans hab hbc
  · exact ⟨rlStrcmp_failed h, rlStrcmp_failed h.symm⟩

theorem empty_not_equal : ¬ ∀ a b c, OrderLaws a b c := by
  intro h
  have hequal := (h (.ofBuffer []) (.ofBuffer []) (.ofBuffer [])).equal.mpr rfl
  exact absurd hequal (by decide)

end Strings

section Memory

variable {a b : List Byte} {size : ℕ}

structure DecidesEquality (a b : List Byte) (size : ℕ) : Prop where
  equal : rlMemcmp (some a) (some b) size = 0 ↔ a.take size = b.take size
  opposite : (rlMemcmp (some b) (some a) size).sign = -(rlMemcmp (some a) (some b) size).sign

theorem memcmp_swap (a b : List Byte) (size : ℕ) : memcmp b a size = -memcmp a b size := by
  induction size generalizing a b with
  | zero => simp [memcmp]
  | succ size ih =>
    cases a with
    | nil => simp [memcmp]
    | cons c a =>
      cases b with
      | nil => simp [memcmp]
      | cons d b =>
        by_cases hcd : c = d
        · rw [hcd, memcmp, memcmp, if_pos rfl, if_pos rfl]
          exact ih a b
        · rw [memcmp, memcmp, if_neg hcd, if_neg (Ne.symm hcd)]
          omega

theorem memcmp_eq_zero (ha : size ≤ a.length) (hb : size ≤ b.length) :
    memcmp a b size = 0 ↔ a.take size = b.take size := by
  induction size generalizing a b with
  | zero => simp [memcmp]
  | succ size ih =>
    obtain ⟨c, a, rfl⟩ := List.exists_cons_of_length_pos (Nat.zero_lt_of_lt ha)
    obtain ⟨d, b, rfl⟩ := List.exists_cons_of_length_pos (Nat.zero_lt_of_lt hb)
    rw [List.length_cons] at ha hb
    have hrest := ih (a := a) (b := b) (by omega) (by omega)
    rw [memcmp, List.take_succ_cons, List.take_succ_cons, List.cons.injEq]
    by_cases hcd : c = d
    · rw [if_pos hcd, hrest, and_iff_right hcd]
    · rw [if_neg hcd]
      refine iff_of_false (fun h => hcd (UInt8.toNat_inj.mp ?_)) fun h => hcd h.1
      omega

theorem memory_empty (h : a ≠ []) :
    rlStrIsempty (some (.ofBuffer a)) = true ↔ a.head? = some 0 := by
  obtain ⟨c, a, rfl⟩ := List.exists_cons_of_ne_nil h
  by_cases hc : c = 0
  · simp [rlStrIsempty, CString.ofBuffer, hc]
  · simp [rlStrIsempty, CString.ofBuffer, hc]

theorem rlMemcmp_failed (ha : a ≠ []) (hb : b ≠ []) (h : a.head? = some 0 ∨ b.head? = some 0) :
    rlMemcmp (some a) (some b) size = RL_FAILED := by
  rw [← memory_empty ha, ← memory_empty hb] at h
  rw [rlMemcmp, if_pos h]

theorem rlMemcmp_compares (ha : a ≠ []) (hb : b ≠ []) (hsize : 0 < size)
    (h : a.head? ≠ some 0 ∧ b.head? ≠ some 0) :
    rlMemcmp (some a) (some b) size = memcmp a b size := by
  rw [← not_or, ← memory_empty ha, ← memory_empty hb] at h
  rw [rlMemcmp, if_neg h, if_neg (Nat.ne_of_gt hsize)]

theorem decides_equality_iff (hsize : 0 < size) (ha : size ≤ a.length) (hb : size ≤ b.length) :
    DecidesEquality a b size ↔ a.head? ≠ some 0 ∧ b.head? ≠ some 0 := by
  have hane : a ≠ [] := List.ne_nil_of_length_pos (Nat.lt_of_lt_of_le hsize ha)
  have hbne : b ≠ [] := List.ne_nil_of_length_pos (Nat.lt_of_lt_of_le hsize hb)
  constructor
  · intro h
    by_contra hzero
    rw [← not_or, not_not] at hzero
    have hopposite := h.opposite
    rw [rlMemcmp_failed hane hbne hzero, rlMemcmp_failed hbne hane hzero.symm] at hopposite
    exact absurd hopposite (by decide)
  · intro h
    have hcompares := rlMemcmp_compares hane hbne hsize h
    have hswapped := rlMemcmp_compares hbne hane hsize h.symm
    constructor
    · rw [hcompares]
      exact memcmp_eq_zero ha hb
    · rw [hcompares, hswapped, memcmp_swap, Int.sign_neg]

theorem decides_equality_four :
    DecidesEquality (text "RIFF") (text "RIFX") 4 ↔
      (text "RIFF").head? ≠ some 0 ∧ (text "RIFX").head? ≠ some 0 :=
  decides_equality_iff (by decide) (by decide) (by decide)

theorem zero_not_equal : ¬ DecidesEquality [0, 1] [0, 1] 2 := by
  intro h
  exact absurd (h.equal.mpr rfl) (by decide)

end Memory

end RlLibrary.Str
