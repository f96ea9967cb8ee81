import RlLibrary.Str.Editing

namespace RlLibrary.Str

open Foundation

def rlStrcpyS (dst : Option Buffer) (dstLen : BitVec 64) (src : Option CString) : Edit :=
  match dst, src with
  | some b, some s =>
    if rlStrIsempty (some s) then .failed dst else
    let copySize := s.bytes.length
    let copySize := if copySize > (dstLen - 1).toNat then (dstLen - 1).toNat else copySize
    ⟨RL_SUCCESS, some ((b.strncpy s.bytes copySize).set copySize 0), none⟩
  | _, _ => .failed dst

/-- A call on an array that nothing has been written to: it stays inside the array, success
leaves the source as far as it fits, and failure leaves the array alone. -/
def CopyBounded (dst : List Byte) (dstLen : BitVec 64) (src : CString) : Prop :=
  let e := rlStrcpyS (some ⟨dst, []⟩) dstLen (some src)
  (∀ b, e.str = some b → ∀ i ∈ b.writes, i < dstLen.toNat) ∧
    (e.code = RL_SUCCESS → ∃ b, e.str = some b ∧
      b.Holds (src.bytes.take (min src.bytes.length (dstLen.toNat - 1)))) ∧
    (e.code = RL_FAILED → e.str = some ⟨dst, []⟩)

section Copy

variable {b : Buffer} {s : CString} {dstLen : BitVec 64}

theorem rlStrcpyS_edit (hs : s.bytes ≠ []) (b : Buffer) (dstLen : BitVec 64) :
    rlStrcpyS (some b) dstLen (some s) =
      ⟨RL_SUCCESS, some ((b.strncpy s.bytes (min s.bytes.length (dstLen - 1).toNat)).set
        (min s.bytes.length (dstLen - 1).toNat) 0), none⟩ := by
  have hempty : ¬ rlStrIsempty (some s) = true := mt (isempty_iff s).mp hs
  have hclamp : (if s.bytes.length > (dstLen - 1).toNat then (dstLen - 1).toNat
      else s.bytes.length) = min s.bytes.length (dstLen - 1).toNat := by
    split_ifs <;> omega
  simp only [rlStrcpyS, hempty, ↓reduceIte, hclamp, Bool.false_eq_true]

theorem copied_holds (b : Buffer) (s : CString) {n : ℕ} (hn : n ≤ s.bytes.length) :
    ((b.strncpy s.bytes n).set n 0).Holds (s.bytes.take n) := by
  have hcopy := Buffer.strncpy_copies b (s.bytes.take n) (s.bytes.drop n)
  rw [List.take_append_drop, List.length_take_of_le hn] at hcopy
  have hnonzero : 0 ∉ s.bytes.take n := fun h => s.nonzero (List.mem_of_mem_take h)
  have hcut := Buffer.cut_holds hcopy hnonzero
  rwa [List.length_take_of_le hn] at hcut

theorem mem_copied_writes {n i : ℕ} (hn : n ≤ s.bytes.length)
    (hi : i ∈ ((b.strncpy s.bytes n).set n 0).writes) : i ∈ b.writes ∨ i ≤ n := by
  rw [Buffer.set, Buffer.mem_write_writes, Buffer.strncpy, Buffer.mem_write_writes] at hi
  simp only [List.length_append, List.length_take, List.length_replicate,
    List.length_singleton] at hi
  rcases hi with (hi | hi) | hi
  · exact Or.inl hi
  · right
    omega
  · right
    omega

theorem terminator_written (b : Buffer) (s : CString) (n : ℕ) :
    n ∈ ((b.strncpy s.bytes n).set n 0).writes := by
  rw [Buffer.set, Buffer.mem_write_writes]
  right
  simp

theorem copy_bounded_iff (dst : List Byte) (dstLen : BitVec 64) (s : CString)
    (hs : s.bytes ≠ []) : CopyBounded dst dstLen s ↔ dstLen ≠ 0 := by
  simp only [CopyBounded, rlStrcpyS_edit hs]
  constructor
  · rintro ⟨hwrites, _⟩ rfl
    have hterminator := hwrites _ rfl _ (terminator_written _ _ _)
    exact absurd hterminator (Nat.not_lt_zero _)
  · intro hroom
    have hpos : 0 < dstLen.toNat := Nat.pos_of_ne_zero fun h => hroom (BitVec.eq_of_toNat_eq h)
    have hclamp : (dstLen - 1).toNat = dstLen.toNat - 1 := by
      rw [BitVec.toNat_sub_of_le (by rw [BitVec.le_def]; exact hpos)]
      rfl
    rw [hclamp]
    have hle : min s.bytes.length (dstLen.toNat - 1) ≤ s.bytes.length := Nat.min_le_left _ _
    refine ⟨fun b hb i hi => ?_, fun _ => ⟨_, rfl, copied_holds _ s hle⟩, fun hcode => ?_⟩
    · rw [← Option.some.inj hb] at hi
      rcases mem_copied_writes hle hi with hi | hi
      · cases hi
      · omega
    · exact absurd hcode (by decide)

def letterA : CString := ⟨text "a", by decide⟩

theorem copy_bounded_iff_full : CopyBounded [7, 7] 2 letterA ↔ (2 : BitVec 64) ≠ 0 :=
  copy_bounded_iff [7, 7] 2 letterA (by decide)

theorem copy_into_nothing : ¬ CopyBounded [] 0 letterA := by
  rintro ⟨hwrites, _⟩
  have hfirst := hwrites _ rfl 0 (by decide)
  exact absurd hfirst (by decide)

end Copy

end RlLibrary.Str
