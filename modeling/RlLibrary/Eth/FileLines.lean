import RlLibrary.Eth.Configuration

namespace RlLibrary.Eth

open Foundation

variable {size : ℕ} {line more file : List Byte}

theorem linesOf_nil (size fuel : ℕ) : linesOf size fuel [] = [] := by
  cases fuel <;> rfl

theorem takeLine_rest (hsize : 1 < size) (hfile : file ≠ []) {fuel : ℕ}
    (hfuel : file.length ≤ fuel + 1) :
    (file.drop (takeLine (size - 1) file).length).length ≤ fuel := by
  have hpos := takeLine_pos (show 0 < size - 1 by omega) hfile
  rw [List.length_drop]
  omega

theorem linesOf_enough (hsize : 1 < size) {fuel fuel' : ℕ} (hfuel : file.length ≤ fuel)
    (hfuel' : file.length ≤ fuel') : linesOf size fuel file = linesOf size fuel' file := by
  induction fuel generalizing fuel' file with
  | zero => rw [List.length_eq_zero_iff.mp (Nat.le_zero.mp hfuel), linesOf_nil, linesOf_nil]
  | succ fuel ih =>
    by_cases hfile : file = []
    · rw [hfile, linesOf_nil, linesOf_nil]
    · obtain ⟨fuel', rfl⟩ := Nat.exists_eq_add_one_of_ne_zero
        (Nat.ne_zero_of_lt ((List.length_pos_iff.mpr hfile).trans_le hfuel'))
      simp only [linesOf, fgets, hfile, ↓reduceIte]
      rw [ih (takeLine_rest hsize hfile hfuel) (takeLine_rest hsize hfile hfuel')]

theorem fileLines_cons (hsize : 1 < size) (hfile : file ≠ []) :
    fileLines size file = takeLine (size - 1) file ::
      fileLines size (file.drop (takeLine (size - 1) file).length) := by
  have henough : file.length ≤ file.length + 1 := Nat.le_succ _
  rw [fileLines, linesOf_enough hsize (Nat.le_refl _) henough]
  simp only [linesOf, fgets, hfile, ↓reduceIte]
  rw [linesOf_enough hsize (takeLine_rest hsize hfile henough) (Nat.le_refl _), fileLines]

theorem fileLines_line (hline : 10 ∉ line) (hfits : line.length + 1 < size) (more : List Byte) :
    fileLines size (line ++ 10 :: more) = (line ++ [10]) :: fileLines size more := by
  have hne : line ++ 10 :: more ≠ [] := List.append_ne_nil_of_right_ne_nil _ (List.cons_ne_nil _ _)
  have hroom : line.length < size - 1 := by omega
  rw [fileLines_cons (by omega) hne, takeLine_whole hline hroom, List.append_cons line 10 more,
    List.drop_left]

theorem fileLines_last (hline : 10 ∉ line) (hfits : line.length < size) (hne : line ≠ []) :
    fileLines size line = [line] := by
  have hsize : 1 < size := (Nat.succ_le_of_lt (List.length_pos_iff.mpr hne)).trans_lt hfits
  have hroom : line.length ≤ size - 1 := by omega
  rw [fileLines_cons hsize hne, takeLine_last hline hroom, List.drop_length, fileLines, linesOf_nil]

end RlLibrary.Eth
