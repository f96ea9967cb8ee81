import RlLibrary.Time.Grammar
import RlLibrary.Time.Strptime

namespace RlLibrary.Time

open Foundation

structure IsHeaderLine (line : List Byte) : Prop where
  nonempty : line ≠ []
  oneLine : 10 ∉ line
  nonzero : 0 ∉ line

def headerText (lines : List (List Byte)) : List Byte := lines.flatMap (· ++ crlf)

def statusLine : List Byte := text "HTTP/1.1 200 OK"

def datedReply (before : List (List Byte)) (c : CivilTime) : List Byte :=
  headerText (statusLine :: before) ++ (text "Date: " ++ httpDate c ++ crlf)

section Lines

variable {lines : List (List Byte)}

theorem headerText_cons (line : List Byte) (lines : List (List Byte)) :
    headerText (line :: lines) = line ++ 13 :: 10 :: headerText lines := by
  rw [headerText, List.flatMap_cons, List.append_assoc]
  rfl

theorem headerText_append (lines lines' : List (List Byte)) :
    headerText (lines ++ lines') = headerText lines ++ headerText lines' := List.flatMap_append

theorem headerText_ends (h : lines ≠ []) : ∃ front, headerText lines = front ++ crlf := by
  rcases List.eq_nil_or_concat' lines with rfl | ⟨front, line, rfl⟩
  · exact absurd rfl h
  · refine ⟨headerText front ++ line, ?_⟩
    rw [headerText_append, List.append_assoc]
    simp [headerText]

theorem headerText_nonzero (h : ∀ line ∈ lines, IsHeaderLine line) : 0 ∉ headerText lines := by
  intro hzero
  obtain ⟨line, hline, hmem⟩ := List.mem_flatMap.mp hzero
  rcases List.mem_append.mp hmem with hin | hend
  · exact (h line hline).nonzero hin
  · exact absurd hend (by decide)

theorem headerText_without {needle : List Byte} (hne : needle ≠ []) (h13 : 13 ∉ needle) (h10 : 10 ∉ needle)
    (h : ∀ line ∈ lines, ¬ needle <:+: line) : ¬ needle <:+: headerText lines := by
  induction lines with
  | nil => exact fun hin => hne (List.infix_nil.mp hin)
  | cons line lines ih =>
    intro hin
    rw [headerText_cons] at hin
    rcases infix_split h13 hin with hline | hin
    · exact h line List.mem_cons_self hline
    · rcases infix_split (a := []) h10 hin with hnil | hrest
      · exact hne (List.infix_nil.mp hnil)
      · exact ih (fun l hl => h l (List.mem_cons_of_mem line hl)) hrest

theorem headerText_open (h : ∀ line ∈ lines, IsHeaderLine line) :
    ¬ [13, 10] <+: headerText lines ∧ ¬ [10, 13, 10] <:+: headerText lines := by
  induction lines with
  | nil => exact ⟨by decide, by decide⟩
  | cons line lines ih =>
    obtain ⟨hstart, hin⟩ := ih fun l hl => h l (List.mem_cons_of_mem line hl)
    have hline := h line List.mem_cons_self
    obtain ⟨b, rest, rfl⟩ := List.exists_cons_of_ne_nil hline.nonempty
    rw [headerText_cons]
    refine ⟨fun hp => ?_, fun hfound => ?_⟩
    · obtain ⟨_, hp⟩ := List.cons_prefix_cons.mp hp
      cases rest with
      | nil => exact absurd (List.cons_prefix_cons.mp hp).1 (by decide)
      | cons d rest =>
        have hd := (List.cons_prefix_cons.mp hp).1
        exact hline.oneLine (by simp [hd])
    · rcases List.infix_cons_iff.mp (infix_after hline.oneLine hfound) with hp | hfound
      · exact absurd (List.cons_prefix_cons.mp hp).1 (by decide)
      · rcases List.infix_cons_iff.mp hfound with hp | hfound
        · exact hstart (List.cons_prefix_cons.mp hp).2
        · exact hin hfound

theorem headerEnd_not_in_lines (h : ∀ line ∈ lines, IsHeaderLine line) :
    ¬ headerEnd <:+: headerText lines := by
  intro hin
  have hpart : ([10, 13, 10] : List Byte) <:+: headerEnd := by decide
  exact (headerText_open h).2 (hpart.trans hin)

end Lines

section Dated

variable {before : List (List Byte)} {c : CivilTime}

def InLine (s : List Byte) : Prop := ∀ b ∈ s, b ≠ 0 ∧ b ≠ 10 ∧ b ≠ 13

theorem InLine.append {s s' : List Byte} (h : InLine s) (h' : InLine s') : InLine (s ++ s') :=
  fun b hb => (List.mem_append.mp hb).elim (h b) (h' b)

theorem inLine_number (width n : ℕ) : InLine (signedDecimal width n) := by
  intro b hb
  have hdigit := padded_digits hb
  have hprinted := digit_printed (hdigit.trans (by decide))
  refine ⟨hprinted.1, hprinted.2, ?_⟩
  rintro rfl
  exact absurd hdigit (by decide)

theorem inLine_text {s : String} (hs : s ∈ ["Date: ", ", ", " ", ":", " GMT"]) : InLine (text s) := by
  have hall : ∀ s ∈ ["Date: ", ", ", " ", ":", " GMT"], (text s).all
      (fun b => decide (b ≠ 0 ∧ b ≠ 10 ∧ b ≠ 13)) = true := by decide
  exact forall_of_all (hall s hs)

theorem inLine_weekday {i : ℕ} (hi : i < 7) : InLine (abbreviation (weekdayNames.getD i "")) := by
  have hall : ∀ i < 7, (abbreviation (weekdayNames.getD i "")).all
      (fun b => decide (b ≠ 0 ∧ b ≠ 10 ∧ b ≠ 13)) = true := by decide
  exact forall_of_all (hall i hi)

theorem inLine_month {i : ℕ} (hi : i < 12) : InLine (abbreviation (monthNames.getD i "")) := by
  have hall : ∀ i < 12, (abbreviation (monthNames.getD i "")).all
      (fun b => decide (b ≠ 0 ∧ b ≠ 10 ∧ b ≠ 13)) = true := by decide
  exact forall_of_all (hall i hi)

theorem inLine_httpDate (hv : c.Valid) : InLine (httpDate c) := by
  have hweekday : c.weekday < 7 := Nat.mod_lt _ (by decide)
  have hmonth : c.month - 1 < 12 := by
    have := hv.month
    omega
  have hdate := ((inLine_weekday hweekday).append (inLine_text (s := ", ") (by decide))).append
    (inLine_number 2 c.day)
  have hyear := ((hdate.append (inLine_text (s := " ") (by decide))).append (inLine_month hmonth)).append
    ((inLine_text (s := " ") (by decide)).append (inLine_number 4 c.year))
  have htime := ((inLine_number 2 c.hour).append (inLine_text (s := ":") (by decide))).append
    (((inLine_number 2 c.minute).append (inLine_text (s := ":") (by decide))).append
      (inLine_number 2 c.second))
  have hall := (hyear.append (inLine_text (s := " ") (by decide))).append
    (htime.append (inLine_text (s := " GMT") (by decide)))
  rw [httpDate]
  simpa only [List.append_assoc] using hall

theorem inLine_date (hv : c.Valid) : InLine (text "Date: " ++ httpDate c) :=
  (inLine_text (by decide)).append (inLine_httpDate hv)

theorem datedReply_lines (before : List (List Byte)) (c : CivilTime) :
    datedReply before c = headerText (statusLine :: before ++ [text "Date: " ++ httpDate c]) := by
  rw [datedReply, headerText_append]
  simp [headerText]

theorem isHeaderLine_date (hv : c.Valid) : IsHeaderLine (text "Date: " ++ httpDate c) where
  nonempty := List.append_ne_nil_of_left_ne_nil (by decide) _
  oneLine hin := (inLine_date hv _ hin).2.1 rfl
  nonzero hin := (inLine_date hv _ hin).1 rfl

theorem datedReply_headerLines (hbefore : ∀ line ∈ before, IsHeaderLine line) (hv : c.Valid) :
    ∀ line ∈ statusLine :: before ++ [text "Date: " ++ httpDate c], IsHeaderLine line := by
  intro line hline
  simp only [List.cons_append, List.mem_cons, List.mem_append, List.not_mem_nil, or_false] at hline
  rcases hline with rfl | hline | rfl
  · exact ⟨by decide, by decide, by decide⟩
  · exact hbefore line hline
  · exact isHeaderLine_date hv

theorem dateField_datedReply (hbefore : ∀ line ∈ before, ¬ text "Date: " <:+: line) (hv : c.Valid)
    (more : List Byte) : dateField (datedReply before c ++ more) = .found (httpDate c) := by
  have hwithout : ¬ text "Date: " <:+: headerText (statusLine :: before) := by
    refine headerText_without (by decide) (by decide) (by decide) fun line hline => ?_
    rcases List.mem_cons.mp hline with rfl | hline
    · decide
    · exact hbefore line hline
  have hcut : cutAt (text "Date: ") (datedReply before c) =
      some (headerText (statusLine :: before), text "Date: " ++ httpDate c ++ crlf) := by
    obtain ⟨front, hfront⟩ := headerText_ends (List.cons_ne_nil statusLine before)
    have hends : headerText (statusLine :: before) = (front ++ [13]) ++ [10] := by
      rw [hfront, List.append_assoc]
      rfl
    rw [hends] at hwithout
    have h10 : (10 : Byte) ∉ text "Date: " := by decide
    have hcut := cutAt_behind (by decide) h10
      (fun hin => hwithout (hin.trans (List.prefix_append _ [10]).isInfix)) (httpDate c ++ crlf)
    rw [datedReply, hends]
    simp only [List.append_assoc, List.cons_append, List.nil_append] at hcut ⊢
    exact hcut
  have hline : cutAt (text "\r\n") (text "Date: " ++ httpDate c ++ crlf) =
      some (text "Date: " ++ httpDate c, crlf) := by
    have h13 : (13 : Byte) ∉ text "Date: " ++ httpDate c := fun hin => (inLine_date hv _ hin).2.2 rfl
    exact cutAt_run h13 []
  have hfound : dateField (datedReply before c) = .found (httpDate c) := by
    rw [dateField, strstr, hcut]
    simp only [Option.map_some]
    rw [hline]
    exact congrArg DateField.found (List.drop_left' (by decide))
  exact dateField_append hfound more

theorem visible_datedReply (hbefore : ∀ line ∈ before, IsHeaderLine line) (hv : c.Valid)
    {tail : List Byte} (hend : headerEnd <:+: (datedReply before c ++ tail).take (responseSize - 1)) {m : ℕ}
    (hm : m ≤ responseSize - 1) (hc : Complete ((datedReply before c ++ tail).take m)) :
    ∃ more, visible (datedReply before c ++ tail) m = datedReply before c ++ more := by
  have hlines := datedReply_headerLines hbefore hv
  have hopen : ¬ headerEnd <:+: datedReply before c := by
    rw [datedReply_lines]
    exact headerEnd_not_in_lines hlines
  have hnonzero : 0 ∉ datedReply before c := by
    rw [datedReply_lines]
    exact headerText_nonzero hlines
  have hlength : (datedReply before c).length ≤ m := by
    have hheader := headerLength_le hend hm hc
    obtain ⟨front, hfront, _⟩ := headerLength_spec hend
    by_contra hlt
    have hshort : headerLength (datedReply before c ++ tail) ≤ (datedReply before c).length := by omega
    rw [List.take_append_of_le_length hshort] at hfront
    have hin : headerEnd <:+: front ++ headerEnd := (List.suffix_append front headerEnd).isInfix
    rw [← hfront] at hin
    exact hopen (hin.trans (List.take_prefix _ _).isInfix)
  refine ⟨(CString.ofBuffer (tail.take (m - (datedReply before c).length))).bytes, ?_⟩
  rw [visible, List.take_append, List.take_of_length_le hlength,
    CString.ofBuffer_append_of_notMem hnonzero]

theorem datedReply_ok (before : List (List Byte)) (c : CivilTime) (more : List Byte) :
    text "HTTP/" <+: datedReply before c ++ more ∧ text "200 OK" <:+: datedReply before c ++ more := by
  have hstatus : statusLine <+: datedReply before c ++ more := by
    rw [datedReply, headerText_cons, List.append_assoc, List.append_assoc]
    exact List.prefix_append _ _
  have hhttp : text "HTTP/" <+: statusLine := by decide
  have hok : text "200 OK" <:+: statusLine := by decide
  exact ⟨hhttp.trans hstatus, hok.trans hstatus.isInfix⟩

def datedHeader (before after : List (List Byte)) (c : CivilTime) : List Byte :=
  datedReply before c ++ (headerText after ++ crlf)

theorem datedHeader_complete {after : List (List Byte)} (hbefore : ∀ line ∈ before, IsHeaderLine line)
    (hafter : ∀ line ∈ after, IsHeaderLine line) (hv : c.Valid)
    (hfits : (datedHeader before after c).length ≤ responseSize - 1) (body : List Byte) :
    headerEnd <:+: (datedHeader before after c ++ body).take (responseSize - 1) ∧
      Complete ((datedHeader before after c ++ body).take (responseSize - 1)) := by
  have hlines : datedHeader before after c =
      headerText ((statusLine :: before ++ [text "Date: " ++ httpDate c]) ++ after) ++ crlf := by
    rw [headerText_append, datedHeader, datedReply_lines, List.append_assoc]
  have hends : headerEnd <:+: datedHeader before after c := by
    have hne : (statusLine :: before ++ [text "Date: " ++ httpDate c]) ++ after ≠ [] := by simp
    obtain ⟨front, hfront⟩ := headerText_ends hne
    rw [hlines, hfront, List.append_assoc]
    exact (List.suffix_append front headerEnd).isInfix
  have hnonzero : 0 ∉ datedHeader before after c := by
    rw [hlines, List.mem_append, not_or]
    refine ⟨headerText_nonzero fun line hline => ?_, by decide⟩
    rcases List.mem_append.mp hline with h | h
    · exact datedReply_headerLines hbefore hv line h
    · exact hafter line h
  rw [List.take_append, List.take_of_length_le hfits]
  refine ⟨hends.trans (List.prefix_append _ _).isInfix, Or.inr ?_⟩
  rw [CString.ofBuffer_append_of_notMem hnonzero]
  exact hends.trans (List.prefix_append _ _).isInfix

theorem server_date_round_trip (trySec : BitVec 32) (old : RlTime) (env : ServerEnv)
    (hc : Connected env trySec) (hstrptime : env.strptime = strptime) {before after : List (List Byte)}
    (hbefore : ∀ line ∈ before, IsHeaderLine line ∧ ¬ text "Date: " <:+: line)
    (hafter : ∀ line ∈ after, IsHeaderLine line) {t : ℕ}
    (ht : t < (⟨10000, 1, 1, 0, 0, 0⟩ : CivilTime).seconds) (body : List Byte)
    (hfits : (datedHeader before after (CivilTime.breakdown t)).length ≤ responseSize - 1)
    {recvs : List RecvResult}
    (hd : Delivers (datedHeader before after (CivilTime.breakdown t) ++ body) recvs) :
    answer trySec old env recvs = (RL_SUCCESS, brokenDown (CivilTime.breakdown t)) := by
  obtain ⟨hv, hyear⟩ := (CivilTime.exists_breakdown (by decide)).mp ⟨t, ht, rfl⟩
  generalize CivilTime.breakdown t = c at hv hyear hfits hd ⊢
  obtain ⟨hend, hfull⟩ := datedHeader_complete (fun line h => (hbefore line h).1) hafter hv hfits body
  rw [answer_connected hc]
  cases hloop : recvLoop recvs [] with
  | none => exact absurd hfull (hd.incomplete_of_none hloop (Nat.le_refl _))
  | some response =>
    obtain ⟨m, hm, rfl, hcomplete⟩ := hd.complete_of_some hloop
    rw [datedHeader, List.append_assoc] at hend hcomplete ⊢
    obtain ⟨more, hmore⟩ := visible_datedReply (fun line h => (hbefore line h).1) hv hend hm hcomplete
    have hfield := dateField_datedReply (fun line h => (hbefore line h).2) hv more
    have hread := strptime_httpDate hv hyear []
    rw [List.append_nil] at hread
    rw [visible] at hmore
    simp only [hmore, outcome_date (datedReply_ok before c more) hfield, hstrptime, hread, ↓reduceIte]

end Dated

section Examples

def epochReply : List Byte := datedHeader [text "Server: x"] [text "Age: 0"] (CivilTime.breakdown 0) ++ text "hello"

theorem server_date_round_trip_epoch :
    answer 5#32 .zero (serverUp strptime) [.bytes epochReply] =
      (RL_SUCCESS, brokenDown (CivilTime.breakdown 0)) := by
  have hline : ∀ line ∈ [text "Server: x"], IsHeaderLine line ∧ ¬ text "Date: " <:+: line := by
    intro line hline
    obtain rfl := List.mem_singleton.mp hline
    exact ⟨⟨by decide, by decide, by decide⟩, by decide⟩
  have hafter : ∀ line ∈ [text "Age: 0"], IsHeaderLine line := by
    intro line hline
    obtain rfl := List.mem_singleton.mp hline
    exact ⟨by decide, by decide, by decide⟩
  refine server_date_round_trip 5#32 .zero (serverUp strptime) ?_ rfl hline hafter ?_ (text "hello")
    (by decide) ⟨[.bytes epochReply], [], rfl, by decide, by decide, ?_⟩
  · exact ⟨⟨rfl, rfl, rfl⟩, _, rfl, rfl, rfl⟩
  · have hlast : (CivilTime.breakdown 0).seconds < (⟨10000, 1, 1, 0, 0, 0⟩ : CivilTime).seconds :=
      (CivilTime.seconds_lt_year (CivilTime.breakdown_counts 0).1 (by decide)).mpr (by decide)
    rwa [(CivilTime.breakdown_counts 0).2] at hlast
  · simp [RecvResult.data, epochReply]

end Examples

end RlLibrary.Time
