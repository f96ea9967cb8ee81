import Mathlib.Data.List.TakeWhile
import RlLibrary.Foundation.Substring

namespace RlLibrary.Foundation

abbrev Byte := UInt8

structure CString where
  bytes : List Byte
  nonzero : 0 ∉ bytes
  deriving DecidableEq

namespace CString

def ofBuffer (buf : List Byte) : CString where
  bytes := buf.takeWhile (fun b => b ≠ 0)
  nonzero h := by
    have hne := List.mem_takeWhile_imp h
    simp at hne

theorem ofBuffer_prefix (buf : List Byte) : (ofBuffer buf).bytes <+: buf :=
  List.takeWhile_prefix _

theorem ofBuffer_append_of_mem {buf : List Byte} (h : 0 ∈ buf) (more : List Byte) :
    (ofBuffer (buf ++ more)).bytes = (ofBuffer buf).bytes := by
  induction buf with
  | nil => cases h
  | cons b buf ih =>
    by_cases hb : b = 0
    · simp [ofBuffer, hb]
    · have hmem : 0 ∈ buf := (List.mem_cons.mp h).resolve_left (Ne.symm hb)
      have hcons (l : List Byte) : (ofBuffer (b :: l)).bytes = b :: (ofBuffer l).bytes := by
        simp [ofBuffer, hb]
      rw [List.cons_append, hcons, hcons, ih hmem]

theorem ofBuffer_append_of_notMem {buf : List Byte} (h : 0 ∉ buf) (more : List Byte) :
    (ofBuffer (buf ++ more)).bytes = buf ++ (ofBuffer more).bytes := by
  apply List.takeWhile_append_of_pos
  intro b hb
  simp only [decide_eq_true_eq]
  rintro rfl
  exact h hb

theorem ofBuffer_of_notMem {buf : List Byte} (h : 0 ∉ buf) : (ofBuffer buf).bytes = buf := by
  have hnil := ofBuffer_append_of_notMem h []
  rwa [List.append_nil, show (ofBuffer []).bytes = [] from rfl, List.append_nil] at hnil

end CString

def text (s : String) : List Byte := s.toList.map (fun c => UInt8.ofNat c.toNat)

theorem forall_of_all {p : Byte → Prop} [DecidablePred p] {bytes : List Byte}
    (h : bytes.all (fun b => p b) = true) : ∀ b ∈ bytes, p b :=
  fun b hb => of_decide_eq_true (List.all_eq_true.mp h b hb)

def strstr (hay needle : List Byte) : Option (List Byte) := (cutAt needle hay).map Prod.snd

def strncmpZero (a b : List Byte) (n : ℕ) : Bool := a.take n = b.take n

theorem strstr_isSome {hay needle : List Byte} :
    (strstr hay needle).isSome = true ↔ needle <:+: hay := by
  rw [strstr, Option.isSome_map]
  exact cutAt_isSome

end RlLibrary.Foundation
