import RlLibrary.Eth.Dhcp

namespace RlLibrary.Eth

open Foundation

structure PlainLine (line : List Byte) : Prop where
  fits : line.length < 255
  blanks : ∀ b ∈ line, isSpace b = isBlank b
  short : ∀ w ∈ words isBlank line, w.length < 31
  keyword : ∀ more, text "iface" ++ more ∈ words isBlank line → more = []

section Lines

variable {mode : Mode} {line tail gap w rest : List Byte}

theorem words_space (h : PlainLine line) (htail : tail = [] ∨ tail = [10]) :
    words isSpace (line ++ tail) = words isBlank line := by
  have hblank := words_congr h.blanks
  rcases htail with rfl | rfl
  · rw [List.append_nil, hblank]
  · rw [words_append_blank (by decide), hblank]

theorem blank_space {b : Byte} (hb : isBlank b = true) : isSpace b = true := by
  simp only [isBlank, decide_eq_true_eq] at hb
  rcases hb with rfl | rfl <;> decide

theorem declares_of_taken (h : PlainLine line) (htail : tail = [] ∨ tail = [10])
    (htaken : Taken mode (line ++ tail)) : Declares mode line := by
  obtain ⟨s, hs⟩ := htaken
  have hwords := words_space h htail
  have hiface : ∀ b ∈ text "iface", isSpace b = false := forall_of_all (by decide)
  have hends₂ := (ends_gap s.gap₂_space s.family_ne s.family_word
    (s.gap₃ ++ (mode.word ++ s.rest))).mpr s.gap₂_ne
  rw [← hs, Stanza.piece, words_gap fun b hb => blank_space (s.lead_blank b hb)] at hwords
  have hgap₁ : s.gap₁ ≠ [] := by
    intro hnil
    have hlong : ∀ b ∈ text "iface" ++ text SYS_USER_ETHERNET_CARD, isSpace b = false := by
      intro b hb
      exact (List.mem_append.mp hb).elim (hiface b) (card_word b)
    rw [hnil, List.nil_append, ← List.append_assoc, words_word (by decide) hlong hends₂] at hwords
    have hcard := h.keyword (text SYS_USER_ETHERNET_CARD) (hwords ▸ List.mem_cons_self)
    exact absurd hcard (by decide)
  have hends₁ := (ends_gap s.gap₁_space (by decide) card_word
    (s.gap₂ ++ (s.family ++ (s.gap₃ ++ (mode.word ++ s.rest))))).mpr hgap₁
  rw [words_word (by decide) hiface hends₁, words_gap s.gap₁_space,
    words_word (by decide) card_word hends₂, words_gap s.gap₂_space] at hwords
  have hgap₃ : s.gap₃ ≠ [] := by
    intro hnil
    have hfull := s.gap₃_ne.resolve_left fun hne => hne hnil
    have hlong : ∀ b ∈ s.family ++ mode.word, isSpace b = false := by
      intro b hb
      exact (List.mem_append.mp hb).elim (s.family_word b) (mode_word mode b)
    have hne : s.family ++ mode.word ≠ [] := List.append_ne_nil_of_left_ne_nil s.family_ne _
    rw [hnil, List.nil_append, ← List.append_assoc, words_word hne hlong s.rest_ends] at hwords
    have hshort := h.short (s.family ++ mode.word) (by simp [← hwords])
    rw [List.length_append] at hshort
    omega
  have hends₃ := (ends_gap s.gap₃_space (mode_word_ne mode) (mode_word mode) s.rest).mpr hgap₃
  rw [words_word s.family_ne s.family_word hends₃, words_gap s.gap₃_space,
    words_word (mode_word_ne mode) (mode_word mode) s.rest_ends] at hwords
  exact ⟨s.family, _, hwords.symm⟩

theorem ends_tail (hrest : Ends isBlank rest) (htail : tail = [] ∨ tail = [10]) :
    Ends isSpace (rest ++ tail) := by
  intro b hb
  cases rest with
  | nil =>
    rcases htail with rfl | rfl
    · cases hb
    · obtain rfl := Option.some.inj hb
      decide
  | cons c rest => exact blank_space (hrest b hb)

theorem field_of_word (h : PlainLine line) (htail : tail = [] ∨ tail = [10])
    {ws : List (List Byte)} {s : List Byte} (hs : s <:+ line) (hw : w.length < 31)
    (hwords : words isBlank s = w :: ws) : ∃ rest, rest <:+ line ∧ words isBlank rest = ws ∧
      Field (some 31) w (rest ++ tail) (s ++ tail) := by
  obtain ⟨gap, rest, rfl, hgap, hne, hword, hends, hmore⟩ := words_uncons hwords
  have hrest : rest <:+ line := ((List.suffix_append w rest).trans (List.suffix_append gap _)).trans hs
  refine ⟨rest, hrest, hmore, gap, by simp, fun b hb => blank_space (hgap b hb), hne,
    fun b hb => ?_, ?_, Or.inr (ends_tail hends htail)⟩
  · rw [h.blanks b (hs.subset (by simp [hb])), hword b hb]
  · rintro k ⟨rfl⟩
    exact hw.le

theorem taken_of_declares (h : PlainLine line) (htail : tail = [] ∨ tail = [10])
    (hdeclares : Declares mode line) : Taken mode (line ++ tail) := by
  obtain ⟨family, more, hwords⟩ := hdeclares
  have hshort : family.length < 31 := h.short family (by simp [hwords])
  obtain ⟨lead, rest, hline, hlead, _, _, _, hmore⟩ := words_uncons hwords
  have hrest : rest <:+ line := by
    rw [hline, ← List.append_assoc]
    exact List.suffix_append _ rest
  obtain ⟨rest₁, hrest₁, hmore₁, h₁⟩ := field_of_word h htail hrest (by decide) hmore
  obtain ⟨rest₂, hrest₂, hmore₂, h₂⟩ := field_of_word h htail hrest₁ hshort hmore₁
  obtain ⟨rest₃, _, _, h₃⟩ := field_of_word h htail hrest₂ (mode_word_short mode) hmore₂
  have htaken := taken_of_fields hlead h₁ h₂ h₃
  rw [hline, List.append_assoc, List.append_assoc]
  exact htaken

theorem taken_iff_declares (h : PlainLine line) (htail : tail = [] ∨ tail = [10]) (mode : Mode) :
    Taken mode (line ++ tail) ↔ Declares mode line :=
  ⟨declares_of_taken h htail, taken_of_declares h htail⟩

end Lines

section Files

variable {P Q : Mode → List Byte → Prop} {mode : Mode} {a b file : List Byte}
  {as bs : List (List Byte)}

theorem First.congr_cons (hline : ∀ m, P m a ↔ Q m b) (hlines : First P mode as ↔ First Q mode bs) :
    First P mode (a :: as) ↔ First Q mode (b :: bs) := by
  constructor
  · intro h
    cases h with
    | here h => exact .here ((hline mode).mp h)
    | later hnone h => exact .later (fun m hm => hnone m ((hline m).mpr hm)) (hlines.mp h)
  · intro h
    cases h with
    | here h => exact .here ((hline mode).mpr h)
    | later hnone h => exact .later (fun m hm => hnone m ((hline m).mp hm)) (hlines.mpr h)

theorem not_first_nil (P : Mode → List Byte → Prop) (mode : Mode) : ¬ First P mode [] := nofun

theorem follows_of_plain (hfile : 0 ∉ file) (hplain : ∀ line ∈ file.splitOn 10, PlainLine line) :
    DhcpFollows file := by
  apply (dhcp_follows_iff file hfile).mpr
  intro mode
  clear hfile
  induction hlength : file.length using Nat.strong_induction_on generalizing file with
  | _ n ih =>
    by_cases hnewline : 10 ∈ file
    · obtain ⟨line, more, rfl, hline⟩ := List.eq_append_cons_of_mem hnewline
      rw [List.splitOn_append_cons_self_of_not_mem hline] at hplain ⊢
      have hthis := hplain line List.mem_cons_self
      have hfits : line.length + 1 < 256 := Nat.succ_lt_succ hthis.fits
      rw [fileLines_line hline hfits]
      refine First.congr_cons (taken_iff_declares hthis (Or.inr rfl)) (ih more.length ?_ ?_ rfl)
      · rw [← hlength, List.length_append, List.length_cons]
        omega
      · exact fun l hl => hplain l (List.mem_cons_of_mem _ hl)
    · rw [List.splitOn_eq_singleton hnewline] at hplain ⊢
      have hthis := hplain file List.mem_cons_self
      by_cases hempty : file = []
      · subst hempty
        refine iff_of_false (not_first_nil _ _) fun h => ?_
        cases h with
        | here h => exact not_declares_nil mode h
        | later _ h => exact not_first_nil _ _ h
      · have hfits : file.length < 256 := Nat.lt_succ_of_lt hthis.fits
        rw [fileLines_last hnewline hfits hempty]
        refine First.congr_cons (fun m => ?_) (iff_of_false (not_first_nil _ _) (not_first_nil _ _))
        have hsame := taken_iff_declares hthis (Or.inl rfl) m
        rwa [List.append_nil] at hsame

end Files

end RlLibrary.Eth
