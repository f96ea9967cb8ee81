import RlLibrary.Str.Editing

namespace RlLibrary.Str

open Foundation

variable {b : Buffer} {s t r : CString} {front back : List Byte} {len : ℕ}

theorem locate_leftmost (hb : b.Holds s.bytes) (h : Leftmost t.bytes s.bytes front back) :
    locate b t = some (front, back) := by
  rw [locate, hb.string, h.cutAt, Option.map_some, List.drop_left]

theorem rlRemoveSubstr_leaves (hb : b.Holds s.bytes) (hs : s.bytes ≠ []) (ht : t.bytes ≠ [])
    (hlen : s.bytes.length < len) (h : Leftmost t.bytes s.bytes front back) :
    (rlRemoveSubstr (some b) (some t)).Leaves b len (front ++ back) := by
  obtain ⟨removed, hremoved, hrest, hwrites⟩ :=
    rlRemoveSubstr_found hb hs ht (locate_leftmost hb h)
  rw [hremoved]
  refine ⟨rfl, removed, rfl, hrest, fun i hi => (hwrites i hi).imp_right fun hlt => ?_⟩
  rw [h.split] at hlen
  simp only [List.length_append] at hlen hlt
  omega

theorem rlReplaceSubstr_leaves (hb : b.Holds s.bytes) (hs : s.bytes ≠ []) (ht : t.bytes ≠ [])
    (hr : r.bytes ≠ []) (h : Leftmost t.bytes s.bytes front back)
    (hfit : front.length + r.bytes.length + back.length + 1 ≤ len) (stack : List Byte) :
    (rlReplaceSubstr (some b) (some t) (some r) len stack).Leaves b len
      (front ++ r.bytes ++ back) := by
  have hl := locate_leftmost hb h
  rw [rlReplaceSubstr_edit hb hs ht hr hl hfit]
  refine ⟨rfl, _, rfl, Buffer.strcpy_holds b (replaced_nonzero hb hl r), fun i hi => ?_⟩
  rw [Buffer.strcpy, Buffer.mem_write_writes] at hi
  simp only [List.length_append, List.length_singleton] at hi
  refine hi.imp_right fun hrange => ?_
  omega

theorem leftmost_occurrence_edited (b : Buffer) (s t r : CString) (len : ℕ) (stack : List Byte)
    (hb : b.Holds s.bytes) (hs : s.bytes ≠ []) (ht : t.bytes ≠ []) (hr : r.bytes ≠ [])
    (hlen : s.bytes.length < len) :
    let removed := rlRemoveSubstr (some b) (some t)
    let replaced := rlReplaceSubstr (some b) (some t) (some r) len stack
    (∀ front back, Leftmost t.bytes s.bytes front back →
      removed.Leaves b len (front ++ back) ∧
        (replaced.code = RL_SUCCESS ↔
          front.length + r.bytes.length + back.length + 1 ≤ len) ∧
        (front.length + r.bytes.length + back.length + 1 ≤ len →
          replaced.Leaves b len (front ++ r.bytes ++ back)) ∧
        (len < front.length + r.bytes.length + back.length + 1 → replaced = .failed (some b))) ∧
      (¬ t.bytes <:+: s.bytes → removed = .failed (some b) ∧ replaced = .failed (some b)) := by
  intro removed replaced
  refine ⟨fun front back h => ?_, fun hin => ?_⟩
  · have hl := locate_leftmost hb h
    have hfits (hfit : front.length + r.bytes.length + back.length + 1 ≤ len) :
        replaced.Leaves b len (front ++ r.bytes ++ back) :=
      rlReplaceSubstr_leaves hb hs ht hr h hfit stack
    have hrefused (hbig : len < front.length + r.bytes.length + back.length + 1) :
        replaced = .failed (some b) :=
      rlReplaceSubstr_refused hl hbig stack
    refine ⟨rlRemoveSubstr_leaves hb hs ht hlen h, ⟨fun hcode => ?_, fun hfit => (hfits hfit).1⟩,
      hfits, hrefused⟩
    by_contra hbig
    rw [hrefused (Nat.lt_of_not_le hbig)] at hcode
    have hfailed : RL_FAILED = RL_SUCCESS := hcode
    exact absurd hfailed (by decide)
  · have hl := (locate_none hb).mpr hin
    exact ⟨rlRemoveSubstr_absent hl, rlReplaceSubstr_absent hl r len stack⟩

def overlapped : CString := ⟨text "aaab", by decide⟩

def repeated : CString := ⟨text "aab", by decide⟩

def substitute : CString := ⟨text "xyz", by decide⟩

theorem leftmost_occurrence_edited_overlapping :
    (rlRemoveSubstr (some ⟨text "aaab" ++ [0], []⟩) (some repeated)).Leaves
        ⟨text "aaab" ++ [0], []⟩ 5 (text "a") ∧
      (rlReplaceSubstr (some ⟨text "aaab" ++ [0], []⟩) (some repeated) (some substitute) 5 []).Leaves
        ⟨text "aaab" ++ [0], []⟩ 5 (text "axyz") := by
  have hleft : Leftmost repeated.bytes overlapped.bytes (text "a") [] := by
    refine ⟨by decide, fun front back hsplit => ?_⟩
    cases front with
    | nil => simp [repeated, overlapped, text] at hsplit
    | cons c front => simp [text]
  have h := (leftmost_occurrence_edited ⟨text "aaab" ++ [0], []⟩ overlapped repeated substitute 5 []
    ⟨by decide, by decide⟩ (by decide) (by decide) (by decide) (by decide)).1 _ _ hleft
  exact ⟨h.1, h.2.2.1 (by decide)⟩

end RlLibrary.Str
