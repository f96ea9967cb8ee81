import RlLibrary.Foundation.Lines
import RlLibrary.Str.Scanning

namespace RlLibrary.Str

open Foundation Traced

/-- A call on a string with `after` behind it in memory: it reads the string only, and succeeds
exactly when something follows the first `ch`, which it then copies as far as it fits. -/
def AfterCharExact (s : CString) (after : List Byte) (ch : Byte) (out : Buffer) (outSize : ℕ) :
    Prop :=
  let call := rlGetStrAfterChar (some (s.bytes ++ 0 :: after)) ch (some out) outSize
  call.ReadsBelow (s.bytes.length + 1) ∧
    (call.value.code = RL_SUCCESS ↔
      ∃ front back, s.bytes = front ++ ch :: back ∧ ch ∉ front ∧ back ≠ []) ∧
    (∀ front back, s.bytes = front ++ ch :: back → ch ∉ front → back ≠ [] →
      call.value.Leaves out outSize (back.take (min back.length (outSize - 1)))) ∧
    (call.value.code ≠ RL_SUCCESS → call.value = .failed (some out))

section Cases

variable {s : CString} {after front back : List Byte} {ch : Byte} {out : Buffer} {outSize : ℕ}

theorem tracedIsempty_run (hs : s.bytes ≠ []) (after : List Byte) :
    tracedIsempty (some (s.bytes ++ 0 :: after)) = ⟨false, [.used 0]⟩ := by
  obtain ⟨first, more, hmore⟩ := List.exists_cons_of_ne_nil hs
  have hfirst : first ≠ 0 := by
    rintro rfl
    exact s.nonzero (by simp [hmore])
  simp [hmore, tracedIsempty, peek, use, bind, pure, hfirst]

theorem rlGetStrAfterChar_absent (hs : s.bytes ≠ []) (hsize : outSize ≠ 0) (hzero : ch ≠ 0)
    (hch : ch ∉ s.bytes) :
    rlGetStrAfterChar (some (s.bytes ++ 0 :: after)) ch (some out) outSize =
      ⟨.failed (some out), .used 0 :: (List.range' 0 (s.bytes.length + 1)).map .used⟩ := by
  have hfront : ∀ b ∈ s.bytes, b ≠ ch ∧ b ≠ 0 :=
    fun b hb => ⟨fun h => hch (h ▸ hb), fun h => s.nonzero (h ▸ hb)⟩
  have hsearch := strchr_run hfront (Or.inr rfl) after
  rw [if_neg (Ne.symm hzero)] at hsearch
  simp only [rlGetStrAfterChar, tracedIsempty_run hs, hsize, hsearch, bind, pure,
    Bool.false_eq_true, ↓reduceIte, List.append_nil, List.singleton_append]

theorem split_front (h : s.bytes = front ++ ch :: back) (hch : ch ∉ front) :
    ∀ b ∈ front, b ≠ ch ∧ b ≠ 0 := by
  intro b hb
  refine ⟨fun hbc => hch (hbc ▸ hb), fun hzero => s.nonzero ?_⟩
  rw [h, ← hzero]
  exact List.mem_append_left _ hb

theorem rlGetStrAfterChar_last (hsize : outSize ≠ 0) (h : s.bytes = front ++ [ch])
    (hch : ch ∉ front) :
    rlGetStrAfterChar (some (s.bytes ++ 0 :: after)) ch (some out) outSize =
      ⟨.failed (some out), .used 0 :: ((List.range' 0 (front.length + 1)).map .used ++
        [.used (front.length + 1)])⟩ := by
  have hsearch := strchr_run (split_front h hch) (Or.inl rfl) (0 :: after)
  have hmem : s.bytes ++ 0 :: after = front ++ ch :: 0 :: after := by simp [h]
  have hempty := tracedIsempty_run (s := s) (by simp [h]) after
  have hnext : (front ++ ch :: 0 :: after).getD (front.length + 1) 0 = 0 := by simp
  rw [if_pos rfl] at hsearch
  rw [hmem] at hempty ⊢
  simp only [rlGetStrAfterChar, hempty, hsize, hsearch, peek, use, hnext, bind, pure,
    Bool.false_eq_true, ↓reduceIte, List.append_nil, List.singleton_append]

theorem rlGetStrAfterChar_found (hsize : outSize ≠ 0) (h : s.bytes = front ++ ch :: back)
    (hch : ch ∉ front) (hback : back ≠ []) :
    rlGetStrAfterChar (some (s.bytes ++ 0 :: after)) ch (some out) outSize =
      ⟨⟨RL_SUCCESS, some (out.snprintf outSize back), none⟩,
        .used 0 :: ((List.range' 0 (front.length + 1)).map .used ++ .used (front.length + 1) ::
          (List.range' (front.length + 1) (back.length + 1)).map .used)⟩ := by
  have hsearch := strchr_run (split_front h hch) (Or.inl rfl) (back ++ 0 :: after)
  have hmem : s.bytes ++ 0 :: after = front ++ ch :: (back ++ 0 :: after) := by simp [h]
  have hempty := tracedIsempty_run (s := s) (by simp [h]) after
  have hnonzero : 0 ∉ back := fun h0 => s.nonzero (by simp [h, h0])
  have hnext : (front ++ ch :: (back ++ 0 :: after)).getD (front.length + 1) 0 ≠ 0 := by
    obtain ⟨b, more, rfl⟩ := List.exists_cons_of_ne_nil hback
    have hb : b ≠ 0 := fun h0 => hnonzero (by simp [h0])
    simpa using hb
  have hdrop : (front ++ ch :: (back ++ 0 :: after)).drop (front.length + 1) =
      back ++ 0 :: after := by simp
  have hclear : ∀ b ∈ back, decide (b = 0) = false := fun b hb =>
    decide_eq_false fun h0 => hnonzero (h0 ▸ hb)
  have hscan := scan_run hclear (decide_eq_true rfl) after (front.length + 1)
  have hcopy : ((front ++ ch :: (back ++ 0 :: after)).take
      (front.length + 1 + back.length)).drop (front.length + 1) = back := by
    rw [List.drop_take, hdrop, Nat.add_sub_cancel_left, List.take_left]
  rw [if_pos rfl] at hsearch
  rw [hmem] at hempty ⊢
  simp only [rlGetStrAfterChar, hempty, hsize, hsearch, peek, use, hnext, hdrop, hscan, hcopy, bind,
    pure, Bool.false_eq_true, ↓reduceIte, List.append_nil, List.singleton_append]

theorem rlGetStrAfterChar_zero (hs : s.bytes ≠ []) (hsize : outSize ≠ 0) :
    ¬ (rlGetStrAfterChar (some (s.bytes ++ 0 :: after)) 0 (some out) outSize).ReadsBelow
      (s.bytes.length + 1) := by
  intro h
  have hfront : ∀ b ∈ s.bytes, b ≠ 0 ∧ b ≠ 0 :=
    fun b hb => ⟨fun h0 => s.nonzero (h0 ▸ hb), fun h0 => s.nonzero (h0 ▸ hb)⟩
  have hsearch := strchr_run hfront (Or.inl rfl) after
  have hcall := h.of_bind.2
  simp only [tracedIsempty_run hs, hsize, Bool.false_eq_true, ↓reduceIte] at hcall
  have hlook := hcall.of_bind.2
  simp only [hsearch, ↓reduceIte] at hlook
  have hindex := hlook.of_bind.1.of_bind.1 _ List.mem_cons_self
  omega

theorem afterCharExact_absent (hs : s.bytes ≠ []) (hsize : outSize ≠ 0) (hzero : ch ≠ 0)
    (hch : ch ∉ s.bytes) : AfterCharExact s after ch out outSize := by
  rw [AfterCharExact, rlGetStrAfterChar_absent hs hsize hzero hch]
  refine ⟨fun i hi => ?_, iff_of_false failed_ne_success ?_, fun front back h => ?_, fun _ => rfl⟩
  · simp only [List.mem_cons, Event.used.injEq, used_range] at hi
    omega
  · rintro ⟨front, back, h, _⟩
    exact hch (by simp [h])
  · exact absurd (by simp [h]) hch

theorem afterCharExact_last (hsize : outSize ≠ 0) (h : s.bytes = front ++ [ch])
    (hch : ch ∉ front) : AfterCharExact s after ch out outSize := by
  have hlength : s.bytes.length = front.length + 1 := by simp [h]
  have hnothing (front' back' : List Byte) (h' : s.bytes = front' ++ ch :: back')
      (hch' : ch ∉ front') : back' = [] :=
    (cut_first hch' hch (h'.symm.trans h)).2
  rw [AfterCharExact, rlGetStrAfterChar_last hsize h hch]
  refine ⟨fun i hi => ?_, iff_of_false failed_ne_success ?_, fun front' back' h' hch' hback => ?_,
    fun _ => rfl⟩
  · simp only [List.mem_cons, List.mem_append, Event.used.injEq, used_range,
      List.not_mem_nil, or_false] at hi
    omega
  · rintro ⟨front', back', h', hch', hback⟩
    exact hback (hnothing front' back' h' hch')
  · exact absurd (hnothing front' back' h' hch') hback

theorem afterCharExact_found (hsize : 1 ≤ outSize) (h : s.bytes = front ++ ch :: back)
    (hch : ch ∉ front) (hback : back ≠ []) : AfterCharExact s after ch out outSize := by
  have hlength : s.bytes.length = front.length + (back.length + 1) := by
    simp only [h, List.length_append, List.length_cons]
  have hnonzero : 0 ∉ back := by
    intro h0
    apply s.nonzero
    rw [h]
    exact List.mem_append_right _ (List.mem_cons_of_mem _ h0)
  rw [AfterCharExact, rlGetStrAfterChar_found (Nat.ne_of_gt hsize) h hch hback]
  refine ⟨fun i hi => ?_, iff_of_true rfl ⟨front, back, h, hch, hback⟩,
    fun front' back' h' hch' _ => ?_, fun hcode => absurd rfl hcode⟩
  · simp only [List.mem_cons, List.mem_append, Event.used.injEq, used_range] at hi
    omega
  · obtain ⟨rfl, rfl⟩ := cut_first hch' hch (h'.symm.trans h)
    have hcopied := Buffer.snprintf_holds out hsize hnonzero
    rw [Nat.min_comm, ← List.take_eq_take_min]
    exact ⟨rfl, _, rfl, hcopied, fun i hi => Buffer.mem_snprintf_writes hsize hi⟩

theorem after_char_exact_iff (s : CString) (after : List Byte) (ch : Byte) (out : Buffer)
    (outSize : ℕ) (hs : s.bytes ≠ []) (hsize : 1 ≤ outSize) :
    AfterCharExact s after ch out outSize ↔ ch ≠ 0 := by
  have hroom : outSize ≠ 0 := Nat.ne_of_gt hsize
  constructor
  · rintro ⟨hreads, _⟩ rfl
    exact rlGetStrAfterChar_zero hs hroom hreads
  · intro hzero
    by_cases hch : ch ∈ s.bytes
    · obtain ⟨front, back, hsplit, hfront⟩ := List.eq_append_cons_of_mem hch
      cases back with
      | nil => exact afterCharExact_last hroom hsplit hfront
      | cons b back => exact afterCharExact_found hsize hsplit hfront (List.cons_ne_nil _ _)
    · exact afterCharExact_absent hs hroom hzero hch

def setting : CString := ⟨text "k=v", by decide⟩

theorem after_char_exact_iff_setting :
    AfterCharExact setting (text "secret") 61 ⟨[7, 7, 7], []⟩ 3 ↔ (61 : Byte) ≠ 0 :=
  after_char_exact_iff setting (text "secret") 61 ⟨[7, 7, 7], []⟩ 3 (by decide) (by decide)

theorem terminator_reads_behind :
    (rlGetStrAfterChar (some (setting.bytes ++ 0 :: text "secret")) 0 (some ⟨[7, 7, 7], []⟩)
        3).value = ⟨RL_SUCCESS, some ⟨text "se" ++ [0], [0, 1, 2]⟩, none⟩ ∧
      ¬ AfterCharExact setting (text "secret") 0 ⟨[7, 7, 7], []⟩ 3 := by
  refine ⟨by decide, fun h => ?_⟩
  have hindex := h.1 4 (by decide)
  exact absurd hindex (by decide)

end Cases

end RlLibrary.Str
