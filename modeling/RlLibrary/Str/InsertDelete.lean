import RlLibrary.Str.Editing

namespace RlLibrary.Str

open Foundation

section Moves

variable {b : Buffer} {front back rest : List Byte} {ch : Byte}

theorem memmove_right_eq {x : Byte} (h : b.bytes = front ++ (back ++ 0 :: x :: rest)) :
    ((b.memmove (front.length + 1) front.length (back.length + 1)).set front.length ch).bytes =
      front ++ ch :: (back ++ 0 :: rest) := by
  have hlength : back.length + 1 = (back ++ [0]).length := by simp
  have hsource : front ++ (back ++ [0]) <+: b.bytes := ⟨x :: rest, by simp [h]⟩
  -- the bytes that move cover all that follows the gap, up to the end of the string
  obtain ⟨first, shifted, hshifted⟩ : ∃ first shifted, back ++ [0, x] = first :: shifted :=
    List.exists_cons_of_length_pos (by simp)
  have hwhole : b.bytes = (front ++ [first]) ++ shifted ++ rest := by
    have hmoved : back ++ 0 :: x :: rest = first :: shifted ++ rest := by
      rw [← hshifted, List.append_assoc]
      rfl
    rw [h, hmoved]
    simp
  have hsize : shifted.length = (back ++ [0]).length := by
    have hcount := congrArg List.length hshifted
    simp only [List.length_append, List.length_cons, List.length_nil] at hcount ⊢
    omega
  have hgap : front.length + 1 = (front ++ [first]).length := by simp
  rw [Buffer.memmove, hlength, Buffer.drop_take_middle hsource, hgap, Buffer.set]
  have hopened := Buffer.write_eq hwhole hsize
  rw [List.append_assoc, List.append_assoc, ← List.append_assoc] at hopened
  have hone : [first].length = [ch].length := rfl
  rw [Buffer.write_eq hopened hone]
  simp

end Moves

section Calls

variable {b : Buffer} {s : List Byte} {front back : List Byte} {c ch : Byte} {max pos : ℕ}

theorem rlStrInsertCh_refused (hb : b.Holds s) (h : ¬ (s.length < max - 1 ∧ pos ≤ s.length))
    (ch : Byte) : rlStrInsertCh (some b) pos ch max = .failed (some b) := by
  simp only [rlStrInsertCh, hb.string]
  split_ifs with hmax hroom hpos
  · rfl
  · rfl
  · rfl
  · exact absurd ⟨by omega, by omega⟩ h

theorem rlDeleteChar_refused (hb : b.Holds s) (h : s.length ≤ pos) :
    rlDeleteChar b pos = .failed (some b) := by
  simp only [rlDeleteChar, hb.string, ge_iff_le, h, ↓reduceIte]

theorem rlDeleteChar_edit (hb : b.Holds (front ++ c :: back)) :
    rlDeleteChar b front.length =
      ⟨RL_SUCCESS, some (b.memmove front.length (front.length + 1) (back.length + 1)), none⟩ := by
  have hinside : ¬ (front ++ c :: back).length ≤ front.length := by simp
  simp only [rlDeleteChar, hb.string, ge_iff_le, hinside, ↓reduceIte]
  rw [List.length_append, Nat.add_sub_cancel_left, List.length_cons]

theorem mem_inserted_writes {i : ℕ} (hi : i ∈ ((b.memmove (front.length + 1) front.length
      (back.length + 1)).set front.length ch).writes) :
    i ∈ b.writes ∨ i < (front ++ back).length + 2 := by
  rw [Buffer.set, Buffer.mem_write_writes, List.length_singleton] at hi
  rw [List.length_append]
  rcases hi with hi | hi
  · refine (Buffer.mem_memmove_writes hi).imp_right fun hlt => ?_
    omega
  · right
    omega

theorem insert_leaves (hb : b.Holds (front ++ back)) (hc : c ≠ 0)
    (hfit : (front ++ back).length + 1 < max) :
    (rlStrInsertCh (some b) front.length c max).Leaves b max (front ++ c :: back) := by
  rw [rlStrInsertCh_edit hb hfit]
  refine ⟨rfl, _, rfl, hb.memmove_right hc, fun i hi => (mem_inserted_writes hi).imp_right ?_⟩
  intro hlt
  omega

theorem delete_leaves (hb : b.Holds (front ++ c :: back))
    (hfit : (front ++ c :: back).length < max) :
    (rlDeleteChar b front.length).Leaves b max (front ++ back) := by
  rw [rlDeleteChar_edit hb]
  rw [List.length_append, List.length_cons] at hfit
  have hmoved : b.Holds (front ++ [c] ++ back) := by simpa using hb
  refine ⟨rfl, _, rfl, by simpa using hmoved.memmove_left, fun i hi => ?_⟩
  refine (Buffer.mem_memmove_writes hi).imp_right fun hlt => ?_
  omega

theorem inserted_bytes (hb : b.Holds (front ++ back))
    (hroom : (front ++ back).length + 1 < b.bytes.length) (ch : Byte) :
    ((b.memmove (front.length + 1) front.length (back.length + 1)).set front.length ch).bytes =
      front ++ ch :: (back ++ 0 :: b.bytes.drop ((front ++ back).length + 2)) := by
  obtain ⟨_, rest, hrest⟩ := hb
  cases rest with
  | nil =>
    have hfull := congrArg List.length hrest
    simp only [List.length_append, List.length_singleton, List.length_nil] at hfull hroom
    omega
  | cons x rest =>
    have hbytes : b.bytes = front ++ (back ++ 0 :: x :: rest) := by simp [← hrest]
    have htail : b.bytes.drop ((front ++ back).length + 2) = rest := by
      have hcut : b.bytes = (front ++ back ++ [0, x]) ++ rest := by simp [← hrest]
      have hlength : (front ++ back).length + 2 = (front ++ back ++ [0, x]).length := by
        simp only [List.length_append, List.length_cons, List.length_nil]
      rw [hlength, hcut, List.drop_left]
    rw [memmove_right_eq hbytes, htail]

theorem insert_then_delete (hb : b.Holds (front ++ back))
    (hroom : (front ++ back).length + 1 < b.bytes.length) (ch : Byte) :
    ∃ b', rlStrInsertCh (some b) front.length ch b.bytes.length = ⟨RL_SUCCESS, some b', none⟩ ∧
      b'.bytes = front ++ ch :: (back ++ 0 :: b.bytes.drop ((front ++ back).length + 2)) ∧
      (∀ i ∈ b'.writes, i ∈ b.writes ∨ i < b.bytes.length) ∧
      (ch ≠ 0 → (rlDeleteChar b' front.length).Leaves b' b.bytes.length (front ++ back)) := by
  refine ⟨_, rlStrInsertCh_edit hb hroom ch, inserted_bytes hb hroom ch, fun i hi => ?_,
    fun hc => ?_⟩
  · refine (mem_inserted_writes hi).imp_right fun hlt => ?_
    omega
  · have hlonger : (front ++ ch :: back).length < b.bytes.length := by
      simp only [List.length_append, List.length_cons] at hroom ⊢
      omega
    exact delete_leaves (hb.memmove_right hc) hlonger

theorem delete_then_insert (hb : b.Holds (front ++ c :: back))
    (hfit : (front ++ c :: back).length < max) :
    (rlDeleteChar b front.length).Leaves b max (front ++ back) ∧
      ∀ b', (rlDeleteChar b front.length).str = some b' →
        (rlStrInsertCh (some b') front.length c max).Leaves b' max (front ++ c :: back) := by
  have hdeleted := delete_leaves hb hfit
  refine ⟨hdeleted, fun b' hstr => ?_⟩
  obtain ⟨_, b'', hstr', hheld, _⟩ := hdeleted
  rw [hstr, Option.some.injEq] at hstr'
  have hc : c ≠ 0 := by
    rintro rfl
    exact hb.1 (by simp)
  apply insert_leaves (hstr' ▸ hheld) hc
  simp only [List.length_append, List.length_cons] at hfit ⊢
  omega

theorem insert_spec (hb : b.Holds s) (pos : ℕ) (ch : Byte) :
    ((rlStrInsertCh (some b) pos ch b.bytes.length).code = RL_SUCCESS ↔
        s.length < b.bytes.length - 1 ∧ pos ≤ s.length) ∧
      ((rlStrInsertCh (some b) pos ch b.bytes.length).code = RL_SUCCESS →
        ∃ b', (rlStrInsertCh (some b) pos ch b.bytes.length).str = some b' ∧
          b'.bytes = s.take pos ++ ch :: (s.drop pos ++ 0 :: b.bytes.drop (s.length + 2)) ∧
          (∀ i ∈ b'.writes, i ∈ b.writes ∨ i < b.bytes.length) ∧
          (ch ≠ 0 → (rlDeleteChar b' pos).Leaves b' b.bytes.length s)) ∧
      ((rlStrInsertCh (some b) pos ch b.bytes.length).code = RL_FAILED →
        rlStrInsertCh (some b) pos ch b.bytes.length = .failed (some b)) := by
  by_cases hfit : s.length < b.bytes.length - 1 ∧ pos ≤ s.length
  · have hsplit : b.Holds (s.take pos ++ s.drop pos) := by rwa [List.take_append_drop]
    have hroom : (s.take pos ++ s.drop pos).length + 1 < b.bytes.length := by
      rw [List.take_append_drop]
      omega
    have hedit := insert_then_delete hsplit hroom ch
    rw [List.length_take_of_le hfit.2, List.take_append_drop] at hedit
    obtain ⟨b', hedit, hbytes, hwrites, hback⟩ := hedit
    rw [hedit]
    exact ⟨iff_of_true rfl hfit, fun _ => ⟨b', rfl, hbytes, hwrites, hback⟩,
      fun hcode => absurd hcode.symm failed_ne_success⟩
  · rw [rlStrInsertCh_refused hb hfit]
    exact ⟨iff_of_false failed_ne_success hfit, fun hcode => absurd hcode failed_ne_success, fun _ => rfl⟩

theorem delete_spec (hb : b.Holds s) (hsize : s.length < max) (pos : ℕ) :
    (∀ c, s[pos]? = some c → (rlDeleteChar b pos).Leaves b max (s.eraseIdx pos) ∧
        ∀ b', (rlDeleteChar b pos).str = some b' →
          (rlStrInsertCh (some b') pos c max).Leaves b' max s) ∧
      ((rlDeleteChar b pos).code = RL_FAILED → rlDeleteChar b pos = .failed (some b)) := by
  refine ⟨fun c hc => ?_, fun hcode => ?_⟩
  · obtain ⟨hpos, hget⟩ := List.getElem?_eq_some_iff.mp hc
    have hsplit : s = s.take pos ++ c :: s.drop (pos + 1) := by
      rw [← hget, ← List.drop_eq_getElem_cons hpos, List.take_append_drop]
    have hheld : b.Holds (s.take pos ++ c :: s.drop (pos + 1)) := hsplit ▸ hb
    have hback := delete_then_insert hheld (hsplit ▸ hsize)
    rw [← hsplit, List.length_take_of_le hpos.le, ← List.eraseIdx_eq_take_drop_succ] at hback
    exact hback
  · by_contra hdeleted
    have hpos : pos < s.length := by
      by_contra hpos
      exact hdeleted (rlDeleteChar_refused hb (Nat.not_lt.mp hpos))
    have hsuccess : (rlDeleteChar b pos).code = RL_SUCCESS := by
      have hinside : ¬ s.length ≤ pos := Nat.not_le.mpr hpos
      simp only [rlDeleteChar, hb.string, ge_iff_le, hinside, ↓reduceIte]
    rw [hsuccess] at hcode
    exact absurd hcode (by decide)

theorem insert_delete_inverse (b : Buffer) (s : CString) (max pos : ℕ) (ch : Byte)
    (hb : b.Holds s.bytes) (hmax : b.bytes.length = max) :
    let inserted := rlStrInsertCh (some b) pos ch max
    let deleted := rlDeleteChar b pos
    (inserted.code = RL_SUCCESS ↔ s.bytes.length < max - 1 ∧ pos ≤ s.bytes.length) ∧
      (inserted.code = RL_SUCCESS → ∃ b', inserted.str = some b' ∧
        b'.bytes = s.bytes.take pos ++ ch :: (s.bytes.drop pos ++ 0 ::
          b.bytes.drop (s.bytes.length + 2)) ∧
        (∀ i ∈ b'.writes, i ∈ b.writes ∨ i < max) ∧
        (ch ≠ 0 → (rlDeleteChar b' pos).Leaves b' max s.bytes)) ∧
      (inserted.code = RL_FAILED → inserted = .failed (some b)) ∧
      (∀ c, s.bytes[pos]? = some c → deleted.Leaves b max (s.bytes.eraseIdx pos) ∧
        ∀ b', deleted.str = some b' → (rlStrInsertCh (some b') pos c max).Leaves b' max s.bytes) ∧
      (deleted.code = RL_FAILED → deleted = .failed (some b)) := by
  intro inserted deleted
  subst hmax
  have hsize : s.bytes.length < b.bytes.length := by
    have hle := hb.2.length_le
    rw [List.length_append, List.length_singleton] at hle
    omega
  obtain ⟨hcode, hedit, hfailed⟩ := insert_spec hb pos ch
  exact ⟨hcode, hedit, hfailed, delete_spec hb hsize pos⟩

def gapped : CString := ⟨text "ac", by decide⟩

theorem insert_delete_inverse_gapped :
    (rlStrInsertCh (some ⟨text "ac" ++ [0, 7], []⟩) 1 98 4).code = RL_SUCCESS :=
  (insert_delete_inverse ⟨text "ac" ++ [0, 7], []⟩ gapped 4 1 98 ⟨by decide, by decide⟩ rfl).1.mpr
    ⟨by decide, by decide⟩

end Calls

end RlLibrary.Str
