import Mathlib.Data.List.Basic
import RlLibrary.Foundation.CString

namespace RlLibrary.Foundation

structure Buffer where
  bytes : List Byte
  writes : List ℕ
  deriving DecidableEq

namespace Buffer

def write (b : Buffer) (i : ℕ) (vs : List Byte) : Buffer :=
  ⟨b.bytes.take i ++ vs ++ b.bytes.drop (i + vs.length), b.writes ++ List.range' i vs.length⟩

def string (b : Buffer) : CString := .ofBuffer b.bytes

def strcpy (b : Buffer) (src : List Byte) : Buffer := b.write 0 (src ++ [0])

def strcat (b : Buffer) (src : List Byte) : Buffer := b.write b.string.bytes.length (src ++ [0])

def strncpy (b : Buffer) (src : List Byte) (n : ℕ) : Buffer :=
  b.write 0 (src.take n ++ List.replicate (n - src.length) 0)

def snprintf (b : Buffer) (size : ℕ) (s : List Byte) : Buffer :=
  if size = 0 then b else b.write 0 (s.take (size - 1) ++ [0])

def set (b : Buffer) (i : ℕ) (v : Byte) : Buffer := b.write i [v]

def memmove (b : Buffer) (dst src n : ℕ) : Buffer := b.write dst ((b.bytes.drop src).take n)

def Holds (b : Buffer) (s : List Byte) : Prop := 0 ∉ s ∧ s ++ [0] <+: b.bytes

variable {b : Buffer} {s front mid back vs : List Byte}

theorem mem_write_writes {i j : ℕ} :
    j ∈ (b.write i vs).writes ↔ j ∈ b.writes ∨ (i ≤ j ∧ j < i + vs.length) := by
  simp only [write, List.mem_append, List.mem_range'_1]

theorem mem_memmove_writes {dst src n i : ℕ} (h : i ∈ (b.memmove dst src n).writes) :
    i ∈ b.writes ∨ i < dst + n := by
  rw [memmove, mem_write_writes, List.length_take] at h
  refine h.imp_right fun hrange => ?_
  omega

theorem write_eq (h : b.bytes = front ++ mid ++ back) (hlength : mid.length = vs.length) :
    (b.write front.length vs).bytes = front ++ vs ++ back := by
  simp only [write, h, ← hlength, ← List.length_append, List.drop_left]
  rw [List.append_assoc front mid back, List.take_left]

theorem write_over (h : front ++ mid ++ back <+: b.bytes) (hlength : mid.length = vs.length) :
    front ++ vs ++ back <+: (b.write front.length vs).bytes := by
  obtain ⟨rest, hb⟩ := h
  rw [List.append_assoc] at hb
  rw [write_eq hb.symm hlength, ← List.append_assoc]
  exact List.prefix_append _ rest

theorem write_extends (h : front <+: b.bytes) (vs : List Byte) :
    front ++ vs <+: (b.write front.length vs).bytes := by
  obtain ⟨rest, hb⟩ := h
  simp only [write, ← hb, List.take_left]
  apply List.prefix_append

theorem Holds.string (h : b.Holds s) : b.string.bytes = s := by
  obtain ⟨hs, rest, hb⟩ := h
  rw [Buffer.string, ← hb, List.append_assoc, CString.ofBuffer_append_of_notMem hs]
  simp [CString.ofBuffer]

theorem strcpy_holds (b : Buffer) (hs : 0 ∉ s) : (b.strcpy s).Holds s :=
  ⟨hs, write_extends List.nil_prefix _⟩

theorem snprintf_holds (b : Buffer) {size : ℕ} (hsize : 0 < size) (hs : 0 ∉ s) :
    (b.snprintf size s).Holds (s.take (size - 1)) := by
  rw [snprintf, if_neg (Nat.ne_of_gt hsize)]
  exact b.strcpy_holds fun h => hs (List.mem_of_mem_take h)

theorem mem_snprintf_writes {size i : ℕ} (hsize : 0 < size) (h : i ∈ (b.snprintf size s).writes) :
    i ∈ b.writes ∨ i < size := by
  rw [snprintf, if_neg (Nat.ne_of_gt hsize), mem_write_writes, List.length_append,
    List.length_take, List.length_singleton] at h
  refine h.imp_right fun hrange => ?_
  omega

theorem Holds.strcat (h : b.Holds s) (hback : 0 ∉ back) : (b.strcat back).Holds (s ++ back) := by
  refine ⟨by simp [h.1, hback], ?_⟩
  rw [Buffer.strcat, h.string, List.append_assoc]
  exact write_extends ((List.prefix_append ..).trans h.2) _

theorem cut_holds (h : front <+: b.bytes) (hf : 0 ∉ front) : (b.set front.length 0).Holds front :=
  ⟨hf, write_extends h _⟩

theorem strncpy_copies (b : Buffer) (front back : List Byte) :
    front <+: (b.strncpy (front ++ back) front.length).bytes := by
  rw [strncpy, List.take_left]
  exact (List.prefix_append _ _).trans (write_extends List.nil_prefix _)

theorem put_holds {c : Byte} (h : front <+: b.bytes) (hf : 0 ∉ front) (hc : c ≠ 0) :
    ((b.set front.length c).set (front.length + 1) 0).Holds (front ++ [c]) := by
  have hput := write_extends h [c]
  have hlength : front.length + 1 = (front ++ [c]).length := by simp
  rw [hlength]
  exact cut_holds hput (by simp [hf, hc.symm])

theorem drop_take_middle (h : front ++ mid <+: b.bytes) :
    (b.bytes.drop front.length).take mid.length = mid := by
  obtain ⟨rest, hb⟩ := h
  rw [← hb, List.append_assoc, List.drop_left, List.take_left]

theorem Holds.memmove_left (h : b.Holds (front ++ mid ++ back)) :
    (b.memmove front.length (front ++ mid).length (back.length + 1)).Holds (front ++ back) := by
  obtain ⟨hs, hb⟩ := h
  simp only [List.mem_append, not_or] at hs
  have hfront : front <+: b.bytes := by
    simp only [List.append_assoc] at hb
    exact (List.prefix_append _ _).trans hb
  have hlength : back.length + 1 = (back ++ [0]).length := by simp
  rw [List.append_assoc (front ++ mid)] at hb
  refine ⟨by simp [hs], ?_⟩
  rw [memmove, hlength, drop_take_middle hb, List.append_assoc]
  exact write_extends hfront _

theorem Holds.memmove_right {c : Byte} (h : b.Holds (front ++ back)) (hc : c ≠ 0) :
    ((b.memmove (front.length + 1) front.length (back.length + 1)).set front.length c).Holds
      (front ++ c :: back) := by
  obtain ⟨hs, hb⟩ := h
  simp only [List.mem_append, not_or] at hs
  rw [List.append_assoc] at hb
  have hlength : back.length + 1 = (back ++ [0]).length := by simp
  -- the byte at the gap stays behind until it is set
  obtain ⟨first, rest, hrest⟩ : ∃ first rest, back ++ [0] = first :: rest :=
    List.exists_cons_of_length_pos (by simp)
  have hgap : front ++ [first] <+: b.bytes := by
    rw [hrest] at hb
    exact (by simp : front ++ [first] <+: front ++ first :: rest).trans hb
  have hshifted := write_extends hgap (back ++ [0])
  refine ⟨by simp [hs, hc.symm], ?_⟩
  rw [memmove, hlength, drop_take_middle hb, set]
  rw [List.length_append, List.length_singleton] at hshifted
  have hset := write_over hshifted (show [first].length = [c].length from rfl)
  rwa [List.append_assoc front (c :: back), List.cons_append, ← List.singleton_append,
    ← List.append_assoc]

end Buffer

end RlLibrary.Foundation
