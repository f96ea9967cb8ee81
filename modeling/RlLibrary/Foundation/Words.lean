import RlLibrary.Foundation.Scan

namespace RlLibrary.Foundation

def words (blank : Byte → Bool) (line : List Byte) : List (List Byte) :=
  (line.splitOnP blank).filter fun w => w ≠ []

def Ends (blank : Byte → Bool) (rest : List Byte) : Prop :=
  ∀ b, rest.head? = some b → blank b = true

section Words

variable {blank : Byte → Bool} {gap w rest s : List Byte}

theorem Ends.stops (h : Ends blank rest) : Stops (fun b => blank b = false) rest := by
  intro b hb
  simp [h b hb]

theorem ends_dropWhile (blank : Byte → Bool) (s : List Byte) :
    Ends blank (s.dropWhile fun b => blank b = false) := by
  intro b hb
  simpa using stops_dropWhile _ s b hb

theorem words_nil : words blank [] = [] := rfl

theorem words_cons_blank {b : Byte} (hb : blank b = true) (s : List Byte) :
    words blank (b :: s) = words blank s := by
  rw [words, List.splitOnP_cons_eq_if_modifyHead, if_pos hb, List.filter_cons_of_neg (by simp)]
  rfl

theorem words_gap (hgap : ∀ b ∈ gap, blank b = true) (s : List Byte) :
    words blank (gap ++ s) = words blank s := by
  induction gap with
  | nil => rfl
  | cons b gap ih =>
    rw [List.cons_append, words_cons_blank (hgap b List.mem_cons_self)]
    exact ih fun c hc => hgap c (List.mem_cons_of_mem b hc)

theorem words_word (hne : w ≠ []) (hw : ∀ b ∈ w, blank b = false) (hrest : Ends blank rest) :
    words blank (w ++ rest) = w :: words blank rest := by
  have hkeep (ws : List (List Byte)) :
      (w :: ws).filter (fun w => w ≠ []) = w :: ws.filter fun w => w ≠ [] :=
    List.filter_cons_of_pos (decide_eq_true hne)
  cases rest with
  | nil => rw [List.append_nil, words, List.splitOnP_eq_singleton hw, hkeep, words_nil, List.filter_nil]
  | cons b rest =>
    have hb := hrest b rfl
    rw [words_cons_blank hb, words, List.splitOnP_append_cons_of_forall_mem hw b hb, hkeep, words]

theorem words_append_blank {b : Byte} (hb : blank b = true) (s : List Byte) :
    words blank (s ++ [b]) = words blank s := by
  rw [words, List.splitOnP_append_cons s [] hb, List.filter_append, words]
  simp

theorem words_congr {blank' : Byte → Bool} (h : ∀ b ∈ s, blank b = blank' b) :
    words blank s = words blank' s := by
  have hsplit : s.splitOnP blank = s.splitOnP blank' := by
    induction s with
    | nil => rfl
    | cons b s ih =>
      have hrest := ih fun c hc => h c (List.mem_cons_of_mem b hc)
      rw [List.splitOnP_cons_eq_if_modifyHead, List.splitOnP_cons_eq_if_modifyHead,
        h b List.mem_cons_self, hrest]
  rw [words, words, hsplit]

theorem exists_word (blank : Byte → Bool) (s : List Byte) :
    ∃ gap w rest, s = gap ++ (w ++ rest) ∧ (∀ b ∈ gap, blank b = true) ∧
      (∀ b ∈ w, blank b = false) ∧ Ends blank rest ∧ Stops blank (w ++ rest) := by
  let s' := s.dropWhile blank
  let w := s'.takeWhile fun b => blank b = false
  have hs' : w ++ s'.dropWhile (fun b => blank b = false) = s' := List.takeWhile_append_dropWhile
  refine ⟨s.takeWhile blank, w, _, ?_, fun b => List.mem_takeWhile_imp, fun b hb => ?_,
    ends_dropWhile blank s', ?_⟩
  · rw [hs', List.takeWhile_append_dropWhile]
  · simpa using List.mem_takeWhile_imp hb
  · rw [hs']
    exact stops_dropWhile blank s

theorem words_uncons {ws : List (List Byte)} (h : words blank s = w :: ws) :
    ∃ gap rest, s = gap ++ (w ++ rest) ∧ (∀ b ∈ gap, blank b = true) ∧ w ≠ [] ∧
      (∀ b ∈ w, blank b = false) ∧ Ends blank rest ∧ words blank rest = ws := by
  obtain ⟨gap, w', rest, rfl, hgap, hw, hends, hstops⟩ := exists_word blank s
  rw [words_gap hgap] at h
  have hne : w' ≠ [] := by
    rintro rfl
    cases rest with
    | nil => simp [words_nil] at h
    | cons b rest =>
      have hstop := hstops b rfl
      rw [hends b rfl] at hstop
      exact absurd hstop (by decide)
  rw [words_word hne hw hends] at h
  obtain ⟨rfl, hlater⟩ := List.cons.inj h
  exact ⟨gap, rest, rfl, hgap, hne, hw, hends, hlater⟩

end Words

section Fields

def Field (width : Option ℕ) (w rest s : List Byte) : Prop :=
  ∃ gap, s = gap ++ (w ++ rest) ∧ (∀ b ∈ gap, isSpace b = true) ∧ w ≠ [] ∧
    (∀ b ∈ w, isSpace b = false) ∧ (∀ k ∈ width, w.length ≤ k) ∧
    (width = some w.length ∨ Ends isSpace rest)

variable {format : List Directive} {width : Option ℕ} {w rest s : List Byte} {vs : List Scanned}

theorem sscanf_blanks_word (format : List Directive) (width : Option ℕ) (s : List Byte) :
    sscanf (.blanks :: .word width :: format) s = sscanf (.word width :: format) s := by
  simp only [sscanf, (stops_dropWhile isSpace s).dropWhile]

theorem field_take {gap word after : List Byte} (hgap : ∀ b ∈ gap, isSpace b = true)
    (hword : ∀ b ∈ word, isSpace b = false) (hends : Ends isSpace after)
    (hw : word.take (width.getD word.length) = w) (hne : w ≠ []) :
    Field width w ((word ++ after).drop w.length) (gap ++ (word ++ after)) := by
  have hstart : w <+: word := hw ▸ List.take_prefix _ _
  have hlength : w.length = min (width.getD word.length) word.length := by
    rw [← hw, List.length_take]
  have hsplit := List.prefix_iff_eq_append.mp (hstart.trans (List.prefix_append word after))
  refine ⟨gap, by rw [hsplit], hgap, hne, fun b hb => hword b (hstart.subset hb), ?_, ?_⟩
  · rintro k rfl
    rw [hlength, Option.getD_some]
    exact Nat.min_le_left _ _
  · cases width with
    | none =>
      have hwhole := hstart.eq_of_length (by rw [hlength, Option.getD_none, Nat.min_self])
      rw [hwhole, List.drop_left]
      exact Or.inr hends
    | some k =>
      rw [Option.getD_some] at hlength
      by_cases hfits : word.length ≤ k
      · have hwhole := hstart.eq_of_length (by omega)
        rw [hwhole, List.drop_left]
        exact Or.inr hends
      · exact Or.inl (congrArg some (by omega))

theorem sscanf_word_iff :
    sscanf (.word width :: format) s = .word w :: vs ↔
      ∃ rest, Field width w rest s ∧ sscanf format rest = vs := by
  constructor
  · intro h
    obtain ⟨gap, word, after, rfl, hgap, hword, hends, hstops⟩ := exists_word isSpace s
    have hrun := takeWhile_run (fun b hb => decide_eq_true (hword b hb)) hends.stops
    simp only [sscanf, List.dropWhile_append_of_pos hgap, hstops.dropWhile, hrun] at h
    split_ifs at h with hne
    obtain ⟨hw, hvs⟩ := List.cons.inj h
    rw [Scanned.word.injEq] at hw
    rw [hw] at hne hvs
    exact ⟨_, field_take hgap hword hends hw hne, hvs⟩
  · rintro ⟨rest, ⟨gap, rfl, hgap, hne, hw, hwidth, hends⟩, rfl⟩
    have hstart : Stops isSpace (w ++ rest) := stops_append hne hw
    have hfront : ∀ b ∈ w, decide (isSpace b = false) = true := fun b hb => decide_eq_true (hw b hb)
    have htaken : ((w ++ rest).takeWhile fun b => isSpace b = false).take
        (width.getD ((w ++ rest).takeWhile fun b => isSpace b = false).length) = w := by
      rcases hends with hfull | hends
      · rw [hfull, Option.getD_some, List.takeWhile_append_of_pos hfront, List.take_left]
      · rw [takeWhile_run hfront hends.stops]
        cases width with
        | none => rw [Option.getD_none, List.take_length]
        | some k => rw [Option.getD_some, List.take_of_length_le (hwidth k rfl)]
    simp only [sscanf, List.dropWhile_append_of_pos hgap, hstart.dropWhile, htaken, hne, ↓reduceIte,
      List.drop_left]

theorem Field.nonzero (h : Field width w rest s) (hs : 0 ∉ s) : 0 ∉ w ∧ 0 ∉ rest := by
  obtain ⟨gap, rfl, _⟩ := h
  simp only [List.mem_append, not_or] at hs
  exact hs.2

end Fields

end RlLibrary.Foundation
