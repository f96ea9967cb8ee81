import RlLibrary.Str.Editing

namespace RlLibrary.Str

open Foundation

variable {b : Buffer} {s t r : CString} {front back : List Byte} {len : ℕ}

def totalLen (s t r : CString) : ℕ := s.bytes.length - t.bytes.length + r.bytes.length + 1

def ScratchBounded (e : Edit) (len : ℕ) : Prop :=
  ∀ buffer, e.scratch = some buffer → ∀ i ∈ buffer.writes, i < len

theorem totalLen_eq (hb : b.Holds s.bytes) (hl : locate b t = some (front, back)) (r : CString) :
    totalLen s t r = front.length + r.bytes.length + back.length + 1 := by
  have hsplit := congrArg List.length (locate_split hb hl)
  simp only [List.length_append] at hsplit
  rw [totalLen]
  omega

theorem mem_scratch_writes (hb : b.Holds s.bytes) (hl : locate b t = some (front, back))
    (r : CString) (stack : List Byte) (i : ℕ) :
    i ∈ (((((⟨stack, []⟩ : Buffer).strcpy b.string.bytes).set front.length 0).strcat r.bytes).strcat
        back).writes ↔
      i < s.bytes.length + 1 ∨ i = front.length ∨
        (front.length ≤ i ∧ i < front.length + r.bytes.length + 1) ∨
        (front.length + r.bytes.length ≤ i ∧
          i < front.length + r.bytes.length + back.length + 1) := by
  obtain ⟨hf, _⟩ := locate_nonzero hb hl
  have hcut := Buffer.cut_holds (scratch_front hb hl stack) hf
  have hreplaced := hcut.strcat r.nonzero
  rw [Buffer.strcat, Buffer.mem_write_writes, hreplaced.string, Buffer.strcat,
    Buffer.mem_write_writes, hcut.string, Buffer.set, Buffer.mem_write_writes, Buffer.strcpy,
    Buffer.mem_write_writes, hb.string]
  simp only [List.length_append, List.length_singleton, List.not_mem_nil, false_or]
  omega

theorem scratch_bounded_iff (b : Buffer) (s t r : CString) (len : ℕ) (stack : List Byte)
    (hb : b.Holds s.bytes) (hs : s.bytes ≠ []) (ht : t.bytes ≠ []) (hr : r.bytes ≠ []) :
    ScratchBounded (rlReplaceSubstr (some b) (some t) (some r) len stack) len ↔
      (t.bytes <:+: s.bytes → totalLen s t r ≤ len → s.bytes.length < len) := by
  by_cases hin : t.bytes <:+: s.bytes
  · obtain ⟨front, back, hl⟩ := exists_locate hb hin
    have htotal := totalLen_eq hb hl r
    simp only [hin, true_implies]
    by_cases hfit : totalLen s t r ≤ len
    · rw [htotal] at hfit
      simp only [htotal, hfit, true_implies]
      constructor
      · intro h
        apply h _ (rlReplaceSubstr_scratch hb hs ht hr hl hfit stack)
        rw [mem_scratch_writes hb hl]
        left
        omega
      · intro hlen buffer hbuffer i hi
        rw [rlReplaceSubstr_scratch hb hs ht hr hl hfit stack, Option.some.injEq] at hbuffer
        rw [← hbuffer, mem_scratch_writes hb hl] at hi
        omega
    · simp only [hfit, false_implies, iff_true]
      intro buffer hbuffer
      rw [htotal] at hfit
      rw [rlReplaceSubstr_refused hl (by omega)] at hbuffer
      cases hbuffer
  · simp only [hin, false_implies, iff_true]
    intro buffer hbuffer
    rw [rlReplaceSubstr_absent ((locate_none hb).mpr hin)] at hbuffer
    cases hbuffer

def longString : CString := ⟨text "aabbbb", by decide⟩

def longTarget : CString := ⟨text "bbbb", by decide⟩

def shortReplacement : CString := ⟨text "c", by decide⟩

theorem scratch_bounded_iff_short :
    ScratchBounded (rlReplaceSubstr (some ⟨text "aabbbb" ++ [0], []⟩) (some longTarget)
        (some shortReplacement) 7 []) 7 ↔
      (longTarget.bytes <:+: longString.bytes →
        totalLen longString longTarget shortReplacement ≤ 7 → longString.bytes.length < 7) :=
  scratch_bounded_iff ⟨text "aabbbb" ++ [0], []⟩ longString longTarget shortReplacement 7 []
    ⟨by decide, by decide⟩ (by decide) (by decide) (by decide)

theorem copy_overruns_scratch :
    totalLen longString longTarget shortReplacement ≤ 4 ∧
      ¬ ScratchBounded (rlReplaceSubstr (some ⟨text "aabbbb" ++ [0], []⟩) (some longTarget)
        (some shortReplacement) 4 []) 4 := by
  refine ⟨by decide, fun h => ?_⟩
  have hlast := h _ rfl 6 (by decide)
  omega

end RlLibrary.Str
