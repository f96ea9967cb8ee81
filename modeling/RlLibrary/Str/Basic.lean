import RlLibrary.Foundation.CString
import RlLibrary.Public

namespace RlLibrary.Str

open Foundation

def rlStrIsempty (buf : Option CString) : Bool :=
  match buf with
  | none => true
  | some s => s.bytes.isEmpty

def strcmp : List Byte → List Byte → ℤ
  | [], [] => 0
  | [], b :: _ => -b.toNat
  | a :: _, [] => a.toNat
  | a :: as, b :: bs => if a = b then strcmp as bs else a.toNat - b.toNat

def rlStrcmp (s1 s2 : Option CString) : ℤ :=
  match s1, s2 with
  | some a, some b =>
    if rlStrIsempty (some a) ∨ rlStrIsempty (some b) then RL_FAILED else strcmp a.bytes b.bytes
  | _, _ => RL_FAILED

theorem strcmp_eq_zero {a b : List Byte} (ha : 0 ∉ a) (hb : 0 ∉ b) : strcmp a b = 0 ↔ a = b := by
  have hpos {c : Byte} (hc : 0 ≠ c) : c.toNat ≠ 0 := by
    intro h
    exact hc (UInt8.toNat_inj.mp h).symm
  induction a generalizing b with
  | nil =>
    cases b with
    | nil => simp [strcmp]
    | cons c b =>
      rw [List.mem_cons, not_or] at hb
      simp [strcmp, hpos hb.1]
  | cons c a ih =>
    rw [List.mem_cons, not_or] at ha
    cases b with
    | nil => simp [strcmp, hpos ha.1]
    | cons d b =>
      rw [List.mem_cons, not_or] at hb
      by_cases hcd : c = d
      · have hrest := ih ha.2 hb.2
        subst hcd
        rw [strcmp, if_pos rfl, List.cons.injEq, and_iff_right rfl]
        exact hrest
      · have hne : (c.toNat : ℤ) - d.toNat ≠ 0 := by
          intro h
          apply hcd
          apply UInt8.toNat_inj.mp
          omega
        simp [strcmp, hcd, hne]

theorem rlStrcmp_eq_zero (a b : CString) :
    rlStrcmp (some a) (some b) = 0 ↔ a.bytes = b.bytes ∧ a.bytes ≠ [] := by
  have hfailed : ¬ RL_FAILED = 0 := by decide
  have hsame := strcmp_eq_zero a.nonzero b.nonzero
  rw [rlStrcmp]
  by_cases hempty : rlStrIsempty (some a) ∨ rlStrIsempty (some b)
  · rw [if_pos hempty]
    refine iff_of_false hfailed ?_
    rintro ⟨heq, hne⟩
    simp only [rlStrIsempty, ← heq, List.isEmpty_iff, or_self] at hempty
    exact hne hempty
  · rw [if_neg hempty, hsame]
    simp only [rlStrIsempty, List.isEmpty_iff, not_or] at hempty
    exact (and_iff_left hempty.1).symm

theorem rlStrcmp_text {s t : List Byte} (hs : 0 ∉ s) (ht : 0 ∉ t) (hne : t ≠ []) :
    rlStrcmp (some (.ofBuffer s)) (some (.ofBuffer t)) = 0 ↔ s = t := by
  rw [rlStrcmp_eq_zero, CString.ofBuffer_of_notMem hs, CString.ofBuffer_of_notMem ht]
  refine ⟨And.left, fun h => ⟨h, ?_⟩⟩
  rwa [h]

end RlLibrary.Str
