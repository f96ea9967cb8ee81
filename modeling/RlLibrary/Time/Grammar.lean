import RlLibrary.Foundation.Reading
import RlLibrary.Time.Splitting

namespace RlLibrary.Time

open Foundation

def crlf : List Byte := text "\r\n"

def StatusLine (code reply : List Byte) : Prop :=
  ∃ major minor reason rest, isDigit major = true ∧ isDigit minor = true ∧ ¬ crlf <:+: reason ∧
    reply = text "HTTP/" ++ [major] ++ text "." ++ [minor] ++ text " " ++ code ++ text " " ++
      reason ++ crlf ++ rest

def IsOws (blanks : List Byte) : Prop := ∀ b ∈ blanks, b = 32 ∨ b = 9

/-- A line before the empty one that ends the header: a name, a colon and a content, with
optional white space around the content. -/
def HeaderField (name content reply : List Byte) : Prop :=
  ∃ before ows ows' after, IsOws ows ∧ IsOws ows' ∧
    reply = before ++ crlf ++ name ++ text ":" ++ (ows ++ content ++ ows') ++ crlf ++ after ∧
    ¬ crlf <:+: ows ++ content ++ ows' ∧ ¬ headerEnd <:+: before ++ crlf

def DateLine (reply : List Byte) : Prop :=
  ∃ before rest, cutAt (text "Date: ") reply = some (before, rest) ∧ crlf <:+ before ∧
    ¬ headerEnd <:+: before

/-- The first "Date: " is somewhere else, and what follows it in its line is again the content of a
field of the header that is named Date. -/
def DateElsewhere (reply : List Byte) : Prop :=
  ¬ DateLine reply ∧ ∃ dateStr, dateField (CString.ofBuffer reply).bytes = .found dateStr ∧
    HeaderField (text "Date") dateStr reply

def Searched (reply : List Byte) : Prop :=
  text "HTTP/" <+: (CString.ofBuffer reply).bytes ∧ text "200 OK" <:+: (CString.ofBuffer reply).bytes ∧
    ∃ dateStr, dateField (CString.ofBuffer reply).bytes = .found dateStr

structure Accepts (env : ServerEnv) (reply dateStr : List Byte) : Prop where
  http : text "HTTP/" <+: (CString.ofBuffer reply).bytes
  status : text "200 OK" <:+: (CString.ofBuffer reply).bytes
  date : dateField (CString.ofBuffer reply).bytes = .found dateStr
  accepted : (env.strptime dateStr dateFormat .zero).2 = true

def FollowsGrammar (env : ServerEnv) (reply : List Byte) (r : ServerResult) : Prop :=
  r.accepted ≠ none → StatusLine (text "200") reply ∧
    ∃ content, HeaderField (text "Date") content reply ∧
      env.strptime content dateFormat .zero = (r.time, true)

section Date

theorem date_line_split {line tail : List Byte} (h : text "Date: " <+: line ++ tail)
    (ht : crlf <+: tail) : text "Date: " <+: line := by
  rcases List.prefix_or_prefix_of_prefix h (List.prefix_append line tail) with hp | hp
  · exact hp
  · -- a line cut short inside "Date: " would put a carriage return there
    obtain ⟨rest, hrest⟩ := hp
    obtain ⟨more, rfl⟩ := ht
    rw [← hrest] at h
    have hcut := (List.prefix_append_right_inj line).mp h
    cases rest with
    | nil => rw [← hrest, List.append_nil]
    | cons b rest =>
      have hb : b = 13 := by
        have hhead := (List.cons_prefix_cons.mp hcut).1
        rw [hhead]
        decide
      have hmem : b ∈ text "Date: " := by
        rw [← hrest]
        simp
      rw [hb] at hmem
      exact absurd hmem (by decide)

theorem dateField_found {s dateStr : List Byte} (h : dateField s = .found dateStr) :
    ∃ before tail, cutAt (text "Date: ") s =
        some (before, text "Date: " ++ dateStr ++ crlf ++ tail) ∧ ¬ crlf <:+: dateStr := by
  cases hcut : cutAt (text "Date: ") s with
  | none => simp [dateField, strstr, hcut] at h
  | some r =>
    obtain ⟨before, rest⟩ := r
    cases hline : cutAt (text "\r\n") rest with
    | none => simp [dateField, strstr, hcut, hline] at h
    | some q =>
      obtain ⟨line, tail⟩ := q
      simp only [dateField, strstr, hcut, Option.map_some, hline, DateField.found.injEq] at h
      obtain ⟨_, hname⟩ := cutAt_eq_some hcut
      obtain ⟨rfl, hend⟩ := cutAt_eq_some hline
      obtain ⟨value, rfl⟩ := date_line_split hname hend
      obtain ⟨more, rfl⟩ := hend
      have hvalue : value = dateStr := by
        rw [← h]
        rfl
      refine ⟨before, more, ?_, fun hin => ?_⟩
      · rw [hvalue, crlf]
        simp only [List.append_assoc]
      · have hline' : text "\r\n" <:+: (text "Date: " ++ value ++ (text "\r\n" ++ more)).take
            (text "Date: " ++ value).length := by
          rw [List.take_left, hvalue]
          exact hin.trans (List.suffix_append _ _).isInfix
        have hfirst := cutAt_first hline hline'
        have hcrlf : (text "\r\n").length = 2 := by decide
        omega

theorem not_crlf_blank {content : List Byte} (h : ¬ crlf <:+: content) :
    ¬ crlf <:+: text " " ++ content ++ [] := by
  have hblank : text " " ++ content ++ [] = 32 :: content := by
    rw [List.append_nil]
    rfl
  rw [hblank, List.infix_cons_iff, not_or]
  refine ⟨fun hp => ?_, h⟩
  have hhead := (List.cons_prefix_cons.mp hp).1
  revert hhead
  decide

theorem headerField_of_dateLine {reply dateStr : List Byte} (hline : DateLine reply)
    (hdate : dateField (CString.ofBuffer reply).bytes = .found dateStr) :
    HeaderField (text "Date") dateStr reply := by
  obtain ⟨before, rest, hcut, ⟨front, hfront⟩, hheader⟩ := hline
  obtain ⟨before', tail, hcut', hvalue⟩ := dateField_found hdate
  obtain ⟨more, hmore⟩ := CString.ofBuffer_prefix reply
  have hwhole := cutAt_append hcut' more
  rw [hmore, hcut] at hwhole
  simp only [Option.some.injEq, Prod.mk.injEq] at hwhole
  obtain ⟨rfl, rfl⟩ := hwhole
  refine ⟨front, text " ", [], tail ++ more, ?_, by simp [IsOws], ?_, not_crlf_blank hvalue, ?_⟩
  · intro b hb
    left
    simpa [text] using hb
  · rw [(cutAt_eq_some hcut).1, ← hfront]
    have hname : text "Date: " = text "Date" ++ text ":" ++ text " " := by decide
    rw [hname]
    simp only [List.append_assoc, List.nil_append]
  · rwa [hfront]

end Date

section Reply

variable {env : ServerEnv} {trySec : BitVec 32} {old : RlTime} {reply : List Byte}

theorem readTime_accepted {held : List Resource} {dateStr : List Byte} :
    (readTime env (CString.ofBuffer reply).bytes old held).accepted = some dateStr →
      Accepts env reply dateStr ∧
        env.strptime dateStr dateFormat .zero =
          ((readTime env (CString.ofBuffer reply).bytes old held).time, true) := by
  intro h
  by_cases hhttp : text "HTTP/" <+: (CString.ofBuffer reply).bytes ∧
      text "200 OK" <:+: (CString.ofBuffer reply).bytes
  · rw [readTime, if_neg (fun hbad => (notOk_iff _).mp hbad hhttp)] at h ⊢
    cases hdate : dateField (CString.ofBuffer reply).bytes with
    | missing => simp [hdate] at h
    | malformed => simp [hdate] at h
    | found date =>
      cases hok : (env.strptime date dateFormat .zero).2 with
      | false => simp [hdate, hok] at h
      | true =>
        simp only [hdate, hok, Bool.true_eq_false, ↓reduceIte, Option.some.injEq] at h ⊢
        subst h
        exact ⟨⟨hhttp.1, hhttp.2, hdate, hok⟩, Prod.ext rfl hok⟩
  · rw [readTime, if_pos ((notOk_iff _).mpr hhttp)] at h
    cases h

theorem readTime_of_accepts (old : RlTime) (held : List Resource) {dateStr : List Byte}
    (h : Accepts env reply dateStr) :
    (readTime env (CString.ofBuffer reply).bytes old held).accepted = some dateStr := by
  rw [readTime, if_neg (fun hbad => (notOk_iff _).mp hbad ⟨h.http, h.status⟩)]
  simp [h.date, h.accepted]

theorem server_connected (old : RlTime) (hc : Connected env trySec) (hr : recvLoop env.recv [] = some reply) :
    ∃ held, rlGetTimeFromServer trySec old env =
      readTime env (CString.ofBuffer reply).bytes old held := by
  obtain ⟨⟨hsocket, hreceive, hsend⟩, address, haddress, hconnect, hrequest⟩ := hc
  refine ⟨freeaddrinfo (.addrinfo :: [.socket]), ?_⟩
  simp only [rlGetTimeFromServer, askServer, hsocket, hreceive, hsend, haddress, hconnect, hrequest,
    hr, Bool.true_eq_false, ↓reduceIte]

end Reply

def takesOnly (dateStr s : List Byte) (_ : String) (time : RlTime) : RlTime × Bool :=
  (time, decide (s = dateStr))

section Examples

def fixedDate : RlTime := ⟨37, 49, 8, 6, 10, 94, 0, 0, 0, 0, 0⟩

def repliesWith (reply : List Byte) : ServerEnv :=
  { serverUp (fun _ _ _ => (fixedDate, true)) with recv := [.bytes reply] }

def okReply : List Byte := text "HTTP/1.1 200 OK\r\nDate: Sun\r\n\r\n"

def redirectReply : List Byte := text "HTTP/1.1 302 Found\r\nX: 200 OK\r\nX-Date: Sun\r\n\r\n"

end Examples

end RlLibrary.Time
