import RlLibrary.Foundation.Numerals
import RlLibrary.Str.Scanning

namespace RlLibrary.Str

open Foundation Traced

section Accepted

variable {s rest mem : List Byte} {n i : ℕ}

theorem digitLoop_true : (digitLoop mem n i).value = RL_TRUE ↔
    ∀ k < n, isDigit (mem.getD (i + k) 0) = true := by
  have hfalse : ¬ RL_FALSE = RL_TRUE := by decide
  induction n generalizing i with
  | zero => exact iff_of_true rfl fun k hk => absurd hk (Nat.not_lt_zero k)
  | succ n ih =>
    simp only [digitLoop, bind_value, peek, pure]
    by_cases hdigit : isDigit (mem.getD i 0) = true
    · rw [if_neg (by simp only [hdigit, Bool.true_eq_false, not_false_iff])]
      refine Iff.trans ih ?_
      constructor
      · rintro h (_ | k) hk
        · exact hdigit
        · rw [Nat.add_comm k 1, ← Nat.add_assoc]
          exact h k (by omega)
      · intro h k hk
        rw [Nat.add_assoc, Nat.add_comm 1]
        exact h (k + 1) (by omega)
    · rw [if_pos (by simpa using hdigit)]
      exact iff_of_false hfalse fun h => hdigit (h 0 (Nat.succ_pos n))

theorem digitLoop_false (h : (digitLoop mem n i).value ≠ RL_TRUE) :
    (digitLoop mem n i).value = RL_FALSE := by
  induction n generalizing i with
  | zero => exact absurd rfl h
  | succ n ih =>
    simp only [digitLoop, bind_value] at h ⊢
    split_ifs at h ⊢
    · rfl
    · exact ih h

theorem tracedIsempty_text (hs : 0 ∉ s) (rest : List Byte) :
    (tracedIsempty (some (s ++ 0 :: rest))).value = decide (s = []) := by
  rw [tracedIsempty_value, rlStrIsempty, CString.ofBuffer_append_of_notMem hs]
  cases s <;> simp [CString.ofBuffer]

theorem rlStrlen_text (hs : 0 ∉ s) (hlength : s.length < 2 ^ 31) (rest : List Byte) :
    (rlStrlen (some (s ++ 0 :: rest))).value = s.length := by
  have hclear : ∀ b ∈ s, decide (b = 0) = false := fun b hb => by
    simpa using ne_of_mem_of_not_mem hb hs
  simp only [rlStrlen, bind_value, tracedIsempty_text hs, decide_eq_true_eq]
  by_cases hempty : s = []
  · simp [hempty, pure]
  · simp only [hempty, ↓reduceIte, bind_value, strlen, scan_run hclear (decide_eq_true rfl), pure]
    rw [BitVec.toInt_eq_toNat_of_lt, BitVec.toNat_ofNat]
    · omega
    · rw [BitVec.toNat_ofNat]
      omega

theorem digits_text (t : List Byte) (rest : List Byte) :
    (∀ k < t.length, isDigit ((t ++ rest).getD k 0) = true) ↔ ∀ b ∈ t, isDigit b = true := by
  have hget {k : ℕ} (hk : k < t.length) : (t ++ rest).getD k 0 = t[k] := by
    simp [List.getElem?_append_left hk, hk]
  constructor
  · intro h b hb
    obtain ⟨k, hk, rfl⟩ := List.getElem_of_mem hb
    rw [← hget hk]
    exact h k hk
  · intro h k hk
    rw [hget hk]
    exact h _ (List.getElem_mem hk)

theorem rlStrIsdigit_cons {c : Byte} {t : List Byte} (hs : 0 ∉ c :: t)
    (hlength : (c :: t).length < 2 ^ 31) (rest : List Byte) :
    (rlStrIsdigit (some (c :: t ++ 0 :: rest))).value =
      if c = 45 then if t = [] then RL_FALSE else (digitLoop (c :: t ++ 0 :: rest) t.length 1).value
      else (digitLoop (c :: t ++ 0 :: rest) (c :: t).length 0).value := by
  have hlen : (BitVec.ofInt 64 ((c :: t).length : ℤ)).toNat = (c :: t).length := by
    rw [BitVec.ofInt_natCast, BitVec.toNat_ofNat]
    omega
  have hfirst : (c :: t ++ 0 :: rest).getD 0 0 = c := rfl
  have hone : (c :: t).length = 1 ↔ t = [] := by simp
  simp only [rlStrIsdigit, bind_value, tracedIsempty_text hs, List.cons_ne_nil, decide_false,
    Bool.false_eq_true, ↓reduceIte, rlStrlen_text hs hlength, hlen, peek, pure, hfirst, hone]
  split_ifs <;> rfl

theorem rlStrIsdigit_iff (hs : 0 ∉ s) (hlength : s.length < 2 ^ 31) (rest : List Byte) :
    (rlStrIsdigit (some (s ++ 0 :: rest))).value = RL_TRUE ↔ ∃ n : Numeral, n.bytes = s := by
  have hfalse : ¬ RL_FALSE = RL_TRUE := by decide
  have hfailed : ¬ RL_FAILED = RL_TRUE := by decide
  cases s with
  | nil =>
    have hvalue : (rlStrIsdigit (some ([] ++ 0 :: rest))).value = RL_FAILED := rfl
    rw [hvalue]
    exact iff_of_false hfailed fun ⟨n, hn⟩ => n.bytes_ne_nil hn
  | cons c t =>
    rw [rlStrIsdigit_cons hs hlength]
    by_cases hminus : c = 45
    · rw [if_pos hminus, hminus, Numeral.exists_minus]
      by_cases ht : t = []
      · rw [if_pos ht]
        exact iff_of_false hfalse fun h => h.1 ht
      · rw [if_neg ht, digitLoop_true, and_iff_right ht]
        simp only [List.cons_append, Nat.add_comm 1, List.getD_cons_succ]
        exact digits_text t _
    · rw [if_neg hminus, digitLoop_true, Numeral.exists_plain hminus]
      simp only [Nat.zero_add]
      exact digits_text (c :: t) _

theorem rlStrIsdigit_false (hne : s ≠ []) (hs : 0 ∉ s) (hlength : s.length < 2 ^ 31)
    (h : (rlStrIsdigit (some (s ++ 0 :: rest))).value ≠ RL_TRUE) :
    (rlStrIsdigit (some (s ++ 0 :: rest))).value = RL_FALSE := by
  obtain ⟨c, t, rfl⟩ := List.exists_cons_of_ne_nil hne
  rw [rlStrIsdigit_cons hs hlength] at h ⊢
  split_ifs at h ⊢
  · rfl
  · exact digitLoop_false h
  · exact digitLoop_false h

theorem accepts_integers (hne : s ≠ []) (hs : 0 ∉ s) (hlength : s.length < 2 ^ 31)
    (rest : List Byte) :
    ((rlStrIsdigit (some (s ++ 0 :: rest))).value = RL_TRUE ↔ ∃ n : Numeral, n.bytes = s) ∧
      ((rlStrIsdigit (some (s ++ 0 :: rest))).value = RL_FALSE ↔ ¬ ∃ n : Numeral, n.bytes = s) ∧
      (rlStrIsdigit (some (s ++ 0 :: rest))).ReadsBelow (s.length + 1) := by
  have haccepts := rlStrIsdigit_iff hs hlength rest
  refine ⟨haccepts, ⟨fun hfalse hnumeral => ?_, fun hnot => ?_⟩, ?_⟩
  · rw [← haccepts, hfalse] at hnumeral
    exact absurd hnumeral (by decide)
  · exact rlStrIsdigit_false hne hs hlength (mt haccepts.mp hnot)
  · exact (rlStrIsdigit_alike hlength rest rest).below

theorem accepts_integers_frost :
    ((rlStrIsdigit (some (text "-40" ++ 0 :: text "C"))).value = RL_TRUE ↔
        ∃ n : Numeral, n.bytes = text "-40") ∧
      ((rlStrIsdigit (some (text "-40" ++ 0 :: text "C"))).value = RL_FALSE ↔
        ¬ ∃ n : Numeral, n.bytes = text "-40") ∧
      (rlStrIsdigit (some (text "-40" ++ 0 :: text "C"))).ReadsBelow ((text "-40").length + 1) :=
  accepts_integers (by decide) (by decide) (by decide) (text "C")

theorem rlStrAtoi_numeral (n : Numeral) (rest : List Byte) :
    (rlStrAtoi (some (n.bytes ++ 0 :: rest))).value = (atoi (n.bytes ++ 0 :: rest)).value := by
  simp only [rlStrAtoi, bind_value, tracedIsempty_text n.bytes_nonzero, n.bytes_ne_nil,
    decide_false, Bool.false_eq_true, ↓reduceIte]

def ConvertsExactly (s rest : List Byte) : Prop :=
  (rlStrIsdigit (some (s ++ 0 :: rest))).value = RL_TRUE →
    ∃ n : Numeral, n.bytes = s ∧ (rlStrAtoi (some (s ++ 0 :: rest))).value = n.denotes

theorem converts_exactly_iff (s rest : List Byte) (hs : 0 ∉ s) (hlength : s.length < 2 ^ 31) :
    ConvertsExactly s rest ↔ ∀ n : Numeral, n.bytes = s → n.FitsInt := by
  rw [ConvertsExactly, rlStrIsdigit_iff hs hlength]
  constructor
  · rintro h n rfl
    obtain ⟨m, hm, hvalue⟩ := h ⟨n, rfl⟩
    obtain rfl := Numeral.bytes_injective hm
    rw [rlStrAtoi_numeral] at hvalue
    exact (m.atoi_exact_iff rest).mp hvalue
  · rintro h ⟨n, rfl⟩
    refine ⟨n, rfl, ?_⟩
    rw [rlStrAtoi_numeral]
    exact (n.atoi_exact_iff rest).mpr (h n rfl)

theorem converts_exactly_celsius :
    ConvertsExactly (text "51440") [] ↔ ∀ n : Numeral, n.bytes = text "51440" → n.FitsInt :=
  converts_exactly_iff (text "51440") [] (by decide) (by decide)

theorem ten_digits_wrap : ¬ ConvertsExactly (text "4294967296") [] := by
  intro h
  obtain ⟨n, hn, hvalue⟩ := h (by decide)
  let large : Numeral := ⟨false, text "4294967296", by decide, forall_of_all (by decide)⟩
  obtain rfl : n = large := Numeral.bytes_injective hn
  exact absurd hvalue (by decide)

end Accepted

end RlLibrary.Str
