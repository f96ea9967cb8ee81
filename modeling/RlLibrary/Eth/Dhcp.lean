import RlLibrary.Eth.FileLines
import RlLibrary.Foundation.Words

namespace RlLibrary.Eth

open Foundation Traced Str

inductive Mode where
  | dhcp
  | static
  deriving DecidableEq, Repr

namespace Mode

def word : Mode → List Byte
  | .dhcp => text "dhcp"
  | .static => text "static"

def code : Mode → ℤ
  | .dhcp => RL_TRUE
  | .static => RL_FALSE

end Mode

def isBlank (b : Byte) : Bool := b = 32 ∨ b = 9

def Declares (mode : Mode) (line : List Byte) : Prop :=
  ∃ family more, words isBlank line =
    text "iface" :: text SYS_USER_ETHERNET_CARD :: family :: mode.word :: more

inductive First (P : Mode → List Byte → Prop) (mode : Mode) : List (List Byte) → Prop
  | here {line : List Byte} {lines : List (List Byte)} (h : P mode line) :
      First P mode (line :: lines)
  | later {line : List Byte} {lines : List (List Byte)} (hline : ∀ m, ¬ P m line)
      (h : First P mode lines) : First P mode (line :: lines)

def DhcpFollows (file : List Byte) : Prop :=
  let code := (rlGetDhcp ⟨true, file⟩).value
  (∀ mode, code = mode.code ↔ First Declares mode (file.splitOn 10)) ∧
    ((∀ mode, ¬ First Declares mode (file.splitOn 10)) → code = RL_FAILED)

structure Stanza (mode : Mode) where
  lead : List Byte
  gap₁ : List Byte
  gap₂ : List Byte
  family : List Byte
  gap₃ : List Byte
  rest : List Byte
  lead_blank : ∀ b ∈ lead, isBlank b = true
  gap₁_space : ∀ b ∈ gap₁, isSpace b = true
  gap₂_space : ∀ b ∈ gap₂, isSpace b = true
  gap₂_ne : gap₂ ≠ []
  family_word : ∀ b ∈ family, isSpace b = false
  family_ne : family ≠ []
  family_short : family.length ≤ 31
  gap₃_space : ∀ b ∈ gap₃, isSpace b = true
  -- a word of 31 bytes need not end before the mode
  gap₃_ne : gap₃ ≠ [] ∨ family.length = 31
  rest_ends : Ends isSpace rest

namespace Stanza

variable {mode : Mode}

def piece (s : Stanza mode) : List Byte :=
  s.lead ++ (text "iface" ++ (s.gap₁ ++ (text SYS_USER_ETHERNET_CARD ++ (s.gap₂ ++ (s.family ++
    (s.gap₃ ++ (mode.word ++ s.rest)))))))

end Stanza

def Taken (mode : Mode) (piece : List Byte) : Prop := ∃ s : Stanza mode, s.piece = piece

section First

variable {P : Mode → List Byte → Prop} {f : List Byte → Option ℤ} {lines : List (List Byte)}
  {code : ℤ}

theorem findSome_first
    (hf : ∀ line ∈ lines, ∀ code, f line = some code ↔ ∃ mode, P mode line ∧ mode.code = code) :
    lines.findSome? f = some code ↔ ∃ mode, First P mode lines ∧ mode.code = code := by
  induction lines with
  | nil =>
    refine iff_of_false (by simp) ?_
    rintro ⟨mode, hfirst, _⟩
    cases hfirst
  | cons line lines ih =>
    have hline := hf line List.mem_cons_self
    have hlines := ih fun l hl => hf l (List.mem_cons_of_mem _ hl)
    cases hcode : f line with
    | none =>
      have hnone : ∀ m, ¬ P m line := by
        intro m hm
        have hsome := (hline m.code).mpr ⟨m, hm, rfl⟩
        rw [hcode] at hsome
        cases hsome
      rw [List.findSome?_cons_of_isNone (by simp [hcode]), hlines]
      constructor
      · rintro ⟨mode, hfirst, heq⟩
        exact ⟨mode, .later hnone hfirst, heq⟩
      · rintro ⟨mode, hfirst, heq⟩
        cases hfirst with
        | here h => exact absurd h (hnone mode)
        | later _ h => exact ⟨mode, h, heq⟩
    | some c =>
      rw [List.findSome?_cons_of_isSome (by simp [hcode]), hcode]
      constructor
      · intro heq
        obtain ⟨mode, hmode, hc⟩ := (hline c).mp hcode
        exact ⟨mode, .here hmode, hc.trans (Option.some.inj heq)⟩
      · rintro ⟨mode, hfirst, heq⟩
        cases hfirst with
        | here h => rw [← hcode, (hline code).mpr ⟨mode, h, heq⟩]
        | later hnone _ =>
          obtain ⟨mode', hmode', _⟩ := (hline c).mp hcode
          exact absurd hmode' (hnone mode')

end First

section Pieces

variable {mode : Mode} {piece w s gap family rest₁ rest₂ rest₃ : List Byte} {code : ℤ}

theorem ends_gap (hgap : ∀ b ∈ gap, isSpace b = true) (hne : w ≠ [])
    (hw : ∀ b ∈ w, isSpace b = false) (rest : List Byte) :
    Ends isSpace (gap ++ (w ++ rest)) ↔ gap ≠ [] := by
  obtain ⟨c, w, rfl⟩ := List.exists_cons_of_ne_nil hne
  cases gap with
  | nil =>
    refine iff_of_false (fun hends => ?_) (fun h => h rfl)
    have hspace := hends c rfl
    rw [hw c List.mem_cons_self] at hspace
    exact absurd hspace (by decide)
  | cons b gap =>
    refine iff_of_true ?_ (List.cons_ne_nil b gap)
    rintro _ ⟨rfl⟩
    exact hgap _ List.mem_cons_self

theorem card_word : ∀ b ∈ text SYS_USER_ETHERNET_CARD, isSpace b = false :=
  forall_of_all (by decide)

theorem mode_word (mode : Mode) : ∀ b ∈ mode.word, isSpace b = false := by
  apply forall_of_all
  cases mode <;> decide

theorem mode_word_ne (mode : Mode) : mode.word ≠ [] := by
  cases mode <;> decide

theorem mode_word_short (mode : Mode) : mode.word.length < 31 := by
  cases mode <;> decide

theorem sscanf_three {iface family word : List Byte} :
    sscanf (List.replicate 3 [Directive.blanks, .word (some 31)]).flatten s =
        [.word iface, .word family, .word word] ↔
      ∃ rest₁ rest₂ rest₃, Field (some 31) iface rest₁ s ∧ Field (some 31) family rest₂ rest₁ ∧
        Field (some 31) word rest₃ rest₂ := by
  change sscanf [.blanks, .word (some 31), .blanks, .word (some 31), .blanks, .word (some 31)] s = _ ↔ _
  simp only [sscanf_blanks_word, sscanf_word_iff]
  constructor
  · rintro ⟨rest₁, h₁, rest₂, h₂, rest₃, h₃, _⟩
    exact ⟨rest₁, rest₂, rest₃, h₁, h₂, h₃⟩
  · rintro ⟨rest₁, rest₂, rest₃, h₁, h₂, h₃⟩
    exact ⟨rest₁, h₁, rest₂, h₂, rest₃, h₃, rfl⟩

theorem taken_of_fields {lead : List Byte} (hlead : ∀ b ∈ lead, isBlank b = true)
    (h₁ : Field (some 31) (text SYS_USER_ETHERNET_CARD) rest₁ s)
    (h₂ : Field (some 31) family rest₂ rest₁) (h₃ : Field (some 31) mode.word rest₃ rest₂) :
    Taken mode (lead ++ (text "iface" ++ s)) := by
  obtain ⟨gap₁, rfl, hgap₁, _, _, _, hends₁⟩ := h₁
  obtain ⟨gap₂, rfl, hgap₂, hfamily_ne, hfamily, hshort, hends₂⟩ := h₂
  obtain ⟨gap₃, rfl, hgap₃, _, _, _, hends₃⟩ := h₃
  have hgap₂_ne := hends₁.resolve_left (by decide)
  rw [ends_gap hgap₂ hfamily_ne hfamily] at hgap₂_ne
  rw [ends_gap hgap₃ (mode_word_ne mode) (mode_word mode)] at hends₂
  have hfull : ¬ some 31 = some mode.word.length := by
    have hword := mode_word_short mode
    rw [Option.some.injEq]
    omega
  exact ⟨{
    lead := lead
    gap₁ := gap₁
    gap₂ := gap₂
    family := family
    gap₃ := gap₃
    rest := rest₃
    lead_blank := hlead
    gap₁_space := hgap₁
    gap₂_space := hgap₂
    gap₂_ne := hgap₂_ne
    family_word := hfamily
    family_ne := hfamily_ne
    family_short := hshort 31 rfl
    gap₃_space := hgap₃
    gap₃_ne := hends₂.symm.imp_right fun h => (Option.some.inj h).symm
    rest_ends := hends₃.resolve_left hfull }, rfl⟩

theorem Stanza.fields (s : Stanza mode) : ∃ rest₁ rest₂ rest₃ after,
    s.piece = s.lead ++ (text "iface" ++ after) ∧
      Field (some 31) (text SYS_USER_ETHERNET_CARD) rest₁ after ∧
      Field (some 31) s.family rest₂ rest₁ ∧ Field (some 31) mode.word rest₃ rest₂ := by
  have hword := mode_word_short mode
  refine ⟨_, _, s.rest, _, rfl, ⟨s.gap₁, rfl, s.gap₁_space, by decide, card_word, ?_, Or.inr ?_⟩,
    ⟨s.gap₂, rfl, s.gap₂_space, s.family_ne, s.family_word, ?_, ?_⟩,
    ⟨s.gap₃, rfl, s.gap₃_space, mode_word_ne mode, mode_word mode, ?_, Or.inr s.rest_ends⟩⟩
  · rintro k ⟨rfl⟩
    decide
  · exact (ends_gap s.gap₂_space s.family_ne s.family_word _).mpr s.gap₂_ne
  · rintro k ⟨rfl⟩
    exact s.family_short
  · rw [ends_gap s.gap₃_space (mode_word_ne mode) (mode_word mode)]
    exact s.gap₃_ne.symm.imp_left fun h => congrArg some h.symm
  · rintro k ⟨rfl⟩
    exact hword.le

theorem mode_iff (hw : 0 ∉ w) :
    (if rlStrcmp (some (.ofBuffer w)) (some (.ofBuffer (text "dhcp"))) = 0 then some RL_TRUE
      else if rlStrcmp (some (.ofBuffer w)) (some (.ofBuffer (text "static"))) = 0 then
        some RL_FALSE
      else none) = some code ↔ ∃ mode : Mode, w = mode.word ∧ mode.code = code := by
  simp only [rlStrcmp_text hw (show 0 ∉ text "dhcp" by decide) (by decide),
    rlStrcmp_text hw (show 0 ∉ text "static" by decide) (by decide)]
  constructor
  · intro h
    split_ifs at h with hdhcp hstatic
    · exact ⟨.dhcp, hdhcp, Option.some.inj h⟩
    · exact ⟨.static, hstatic, Option.some.inj h⟩
  · rintro ⟨mode, rfl, rfl⟩
    cases mode with
    | dhcp => rfl
    | static => rfl

theorem trimmed_stops (s : List Byte) : Stops (fun b => b = 32 ∨ b = 9) (text "iface" ++ s) := by
  rintro b ⟨rfl⟩
  decide

theorem strncmpZero_iface (s : List Byte) :
    strncmpZero s (text "iface") 5 = true ↔ ∃ rest, s = text "iface" ++ rest := by
  have hlength : (text "iface").length = 5 := rfl
  rw [strncmpZero, decide_eq_true_iff, ← hlength, List.take_length, eq_comm,
    ← List.prefix_iff_eq_take]
  constructor
  · rintro ⟨rest, hrest⟩
    exact ⟨rest, hrest.symm⟩
  · rintro ⟨rest, rfl⟩
    exact List.prefix_append _ rest

theorem dhcpLine_iface {lead : List Byte} (hpiece : 0 ∉ lead ++ (text "iface" ++ s))
    (hlead : ∀ b ∈ lead, isBlank b = true) : dhcpLine (lead ++ (text "iface" ++ s)) = some code ↔
      ∃ rest₁ rest₂ rest₃ family, ∃ mode : Mode,
        Field (some 31) (text SYS_USER_ETHERNET_CARD) rest₁ s ∧ Field (some 31) family rest₂ rest₁ ∧
        Field (some 31) mode.word rest₃ rest₂ ∧ mode.code = code := by
  have hzero : 0 ∉ s := fun h => hpiece (by simp [h])
  have htrimmed : (lead ++ (text "iface" ++ s)).dropWhile (fun b => b = 32 ∨ b = 9) =
      text "iface" ++ s := by
    have hblank : ∀ b ∈ lead, decide (b = 32 ∨ b = 9) = true := hlead
    rw [List.dropWhile_append_of_pos hblank, (trimmed_stops s).dropWhile]
  have hiface : strncmpZero (text "iface" ++ s) (text "iface") 5 = true :=
    (strncmpZero_iface _).mpr ⟨s, rfl⟩
  simp only [dhcpLine, CString.ofBuffer_of_notMem hpiece, htrimmed, hiface, Bool.true_eq_false,
    ↓reduceIte, ifaceFormat, sscanf_literal]
  constructor
  · intro h
    split at h
    · rename_i iface family word hscan
      obtain ⟨rest₁, rest₂, rest₃, h₁, h₂, h₃⟩ := sscanf_three.mp hscan
      have hname := (h₁.nonzero hzero).1
      have hword := (h₃.nonzero (h₂.nonzero (h₁.nonzero hzero).2).2).1
      rw [ite_not] at h
      split at h
      · rename_i hcard
        rw [rlStrcmp_text hname (by decide) (by decide)] at hcard
        obtain ⟨mode, rfl, hcode⟩ := (mode_iff hword).mp h
        exact ⟨rest₁, rest₂, rest₃, family, mode, hcard ▸ h₁, h₂, h₃, hcode⟩
      · cases h
    · cases h
  · rintro ⟨rest₁, rest₂, rest₃, family, mode, h₁, h₂, h₃, hcode⟩
    have hcard := (rlStrcmp_text (h₁.nonzero hzero).1 (by decide) (by decide)).mpr rfl
    have hword := (h₃.nonzero (h₂.nonzero (h₁.nonzero hzero).2).2).1
    rw [sscanf_three.mpr ⟨rest₁, rest₂, rest₃, h₁, h₂, h₃⟩]
    simp only [hcard, ne_eq, not_true_eq_false, ↓reduceIte]
    exact (mode_iff hword).mpr ⟨mode, rfl, hcode⟩

theorem dhcpLine_iff (hpiece : 0 ∉ piece) :
    dhcpLine piece = some code ↔ ∃ mode, Taken mode piece ∧ mode.code = code := by
  constructor
  · intro h
    have hsplit : piece.takeWhile isBlank ++ piece.dropWhile isBlank = piece :=
      List.takeWhile_append_dropWhile
    have hlead : ∀ b ∈ piece.takeWhile isBlank, isBlank b = true := fun b => List.mem_takeWhile_imp
    have hiface : strncmpZero (piece.dropWhile isBlank) (text "iface") 5 = true := by
      by_contra hother
      rw [Bool.not_eq_true] at hother
      have hnone : dhcpLine piece = none := by
        rw [dhcpLine, CString.ofBuffer_of_notMem hpiece]
        exact if_pos hother
      rw [hnone] at h
      cases h
    obtain ⟨s, hs⟩ := (strncmpZero_iface _).mp hiface
    rw [hs] at hsplit
    rw [← hsplit] at hpiece h ⊢
    obtain ⟨rest₁, rest₂, rest₃, family, mode, h₁, h₂, h₃, hcode⟩ :=
      (dhcpLine_iface hpiece hlead).mp h
    exact ⟨mode, taken_of_fields hlead h₁ h₂ h₃, hcode⟩
  · rintro ⟨mode, ⟨s, rfl⟩, rfl⟩
    obtain ⟨rest₁, rest₂, rest₃, after, hs, h₁, h₂, h₃⟩ := s.fields
    rw [hs] at hpiece ⊢
    exact (dhcpLine_iface hpiece s.lead_blank).mpr ⟨rest₁, rest₂, rest₃, s.family, mode, h₁, h₂, h₃, rfl⟩

end Pieces

section Files

variable {file : List Byte} {pieces : List (List Byte)}

theorem dhcpLoop_value (pieces : List (List Byte)) :
    (dhcpLoop pieces).value = (pieces.findSome? dhcpLine).getD RL_FAILED := by
  induction pieces with
  | nil => rfl
  | cons piece pieces ih =>
    cases hcode : dhcpLine piece with
    | none =>
      rw [List.findSome?_cons_of_isNone (by simp [hcode]), ← ih]
      simp only [dhcpLoop, hcode, bind_value]
    | some code =>
      rw [List.findSome?_cons_of_isSome (by simp [hcode]), hcode, Option.getD_some]
      simp only [dhcpLoop, hcode, bind_value]
      rfl

theorem mode_code_injective {m m' : Mode} (h : m.code = m'.code) : m = m' := by
  cases m with
  | dhcp => cases m' with
    | dhcp => rfl
    | static => exact absurd h (by decide)
  | static => cases m' with
    | dhcp => exact absurd h (by decide)
    | static => rfl

theorem mode_code_ne (m : Mode) : m.code ≠ RL_FAILED := by
  cases m <;> decide

theorem rlGetDhcp_value (hfile : 0 ∉ file) :
    (∀ mode : Mode, (rlGetDhcp ⟨true, file⟩).value = mode.code ↔
        First Taken mode (fileLines 256 file)) ∧
      ((∀ mode, ¬ First Taken mode (fileLines 256 file)) →
        (rlGetDhcp ⟨true, file⟩).value = RL_FAILED) := by
  have hpieces : ∀ piece ∈ fileLines 256 file, ∀ code,
      dhcpLine piece = some code ↔ ∃ mode, Taken mode piece ∧ mode.code = code := by
    intro piece hpiece code
    refine dhcpLine_iff fun h0 => hfile ?_
    rw [← fileLines_flatten (show 1 < 256 by decide) file]
    exact List.mem_flatten_of_mem hpiece h0
  have hcode : (rlGetDhcp ⟨true, file⟩).value =
      ((fileLines 256 file).findSome? dhcpLine).getD RL_FAILED := dhcpLoop_value _
  rw [hcode]
  cases hfound : (fileLines 256 file).findSome? dhcpLine with
  | none =>
    have hnone : ∀ mode, ¬ First Taken mode (fileLines 256 file) := by
      intro mode hfirst
      have hsome := (findSome_first hpieces).mpr ⟨mode, hfirst, rfl⟩
      rw [hfound] at hsome
      cases hsome
    exact ⟨fun mode => iff_of_false (mode_code_ne mode).symm (hnone mode), fun _ => rfl⟩
  | some code =>
    obtain ⟨mode, hfirst, rfl⟩ := (findSome_first hpieces).mp hfound
    refine ⟨fun mode' => ⟨fun heq => mode_code_injective heq ▸ hfirst, fun hfirst' => ?_⟩,
      fun hnone => absurd hfirst (hnone mode)⟩
    have hsome := (findSome_first hpieces).mpr ⟨mode', hfirst', rfl⟩
    rw [hfound] at hsome
    exact Option.some.inj hsome

/-- The answer follows the file if and only if the first piece of at most 255 bytes that looks like
a stanza of the card has the mode of the first line that is one. -/
theorem dhcp_follows_iff (file : List Byte) (hfile : 0 ∉ file) :
    DhcpFollows file ↔ ∀ mode, First Taken mode (fileLines 256 file) ↔
      First Declares mode (file.splitOn 10) := by
  obtain ⟨htaken, hfailed⟩ := rlGetDhcp_value hfile
  constructor
  · rintro ⟨hmode, _⟩ mode
    rw [← htaken mode, hmode mode]
  · intro hsame
    refine ⟨fun mode => (htaken mode).trans (hsame mode), fun hnone => hfailed fun mode hfirst => ?_⟩
    exact hnone mode ((hsame mode).mp hfirst)

def interfaces : List Byte := text "iface lo inet loopback\niface eth0 inet static\n"

theorem dhcp_follows_iff_interfaces :
    DhcpFollows interfaces ↔ ∀ mode, First Taken mode (fileLines 256 interfaces) ↔
      First Declares mode (interfaces.splitOn 10) :=
  dhcp_follows_iff interfaces (by decide)

theorem Declares.head {mode : Mode} {line : List Byte} (h : Declares mode line) :
    (words isBlank line).head? = some (text "iface") := by
  obtain ⟨family, more, hwords⟩ := h
  rw [hwords, List.head?_cons]

theorem not_declares_nil (mode : Mode) : ¬ Declares mode [] := fun h =>
  absurd h.head (by decide)

theorem longer_keyword_taken :
    (rlGetDhcp ⟨true, text "ifaceeth0 inet dhcp\n"⟩).value = RL_TRUE ∧
      ¬ DhcpFollows (text "ifaceeth0 inet dhcp\n") := by
  have hcode : (rlGetDhcp ⟨true, text "ifaceeth0 inet dhcp\n"⟩).value = RL_TRUE := by decide
  refine ⟨hcode, ?_⟩
  rintro ⟨hmode, _⟩
  have hfirst : First Declares .dhcp [text "ifaceeth0 inet dhcp", []] := (hmode .dhcp).mp hcode
  have hline : (words isBlank (text "ifaceeth0 inet dhcp")).head? ≠ some (text "iface") := by decide
  cases hfirst with
  | here h => exact hline h.head
  | later _ h =>
    cases h with
    | here h => exact not_declares_nil _ h
    | later _ h => cases h

end Files

end RlLibrary.Eth
