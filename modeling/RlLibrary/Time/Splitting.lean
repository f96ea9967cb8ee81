import Mathlib.Data.Nat.Find
import RlLibrary.Time.AllOrNothing

namespace RlLibrary.Time

open Foundation

def Delivers (stream : List Byte) (recvs : List RecvResult) : Prop :=
  ∃ chunks ending, recvs = chunks ++ ending ∧ (∀ r ∈ chunks, r.data ≠ []) ∧
    (∀ r ∈ ending, r.data = []) ∧ chunks.flatMap RecvResult.data = stream

def answer (trySec : BitVec 32) (old : RlTime) (env : ServerEnv) (recvs : List RecvResult) :
    ℤ × RlTime :=
  let r := rlGetTimeFromServer trySec old { env with recv := recvs }
  (r.code, r.time)

def SplitIndependent (trySec : BitVec 32) (old : RlTime) (env : ServerEnv)
    (stream : List Byte) : Prop :=
  ∀ recvs recvs', Delivers stream recvs → Delivers stream recvs' →
    answer trySec old env recvs = answer trySec old env recvs'

def Connected (env : ServerEnv) (trySec : BitVec 32) : Prop :=
  Prepared env trySec ∧ ∃ address, env.getaddrinfo GET_TIME_SOCKET_DNS = some address ∧
    env.connect address GET_TIME_SOCKET_PORT = true ∧ env.send request = true

def visible (stream : List Byte) (m : ℕ) : List Byte := (CString.ofBuffer (stream.take m)).bytes

def headerLength (stream : List Byte) : ℕ :=
  match cutAt headerEnd stream with
  | none => stream.length
  | some (before, _) => before.length + headerEnd.length

/-- What is found in the header is not changed by what may be in the buffer after it. -/
structure HeaderDecides (env : ServerEnv) (old : RlTime) (stream : List Byte) : Prop where
  date : text "200 OK" <:+: visible stream (headerLength stream) →
    text "Date: " <:+: visible stream (headerLength stream) ∨
      ∀ dateStr, dateField (visible stream (responseSize - 1)) = .found dateStr →
        env.strptime dateStr dateFormat .zero = (old, false)
  status : ¬ text "200 OK" <:+: visible stream (headerLength stream) →
    ∀ m, headerLength stream ≤ m → m ≤ responseSize - 1 → text "200 OK" <:+: visible stream m →
      ∃ dateStr, dateField (visible stream m) = .found dateStr ∧
        env.strptime dateStr dateFormat .zero = (old, true)

section Arriving

variable {stream : List Byte} {recvs : List RecvResult}

theorem Complete.mono {s t : List Byte} (h : Complete s) (hp : s <+: t)
    (ht : t.length ≤ responseSize - 1) : Complete t := by
  rcases h with hfull | hheader
  · have hle := hp.length_le
    exact Or.inl (by omega)
  · obtain ⟨more, rfl⟩ := hp
    by_cases hz : 0 ∈ s
    · rw [Complete, CString.ofBuffer_append_of_mem hz]
      exact Or.inr hheader
    · rw [Complete, CString.ofBuffer_append_of_notMem hz]
      rw [CString.ofBuffer_of_notMem hz] at hheader
      exact Or.inr (hheader.trans (List.prefix_append _ _).isInfix)

theorem Delivers.buffered (h : Delivers stream recvs) (n : ℕ) :
    ∃ m ≤ responseSize - 1, fill [] recvs n = stream.take m := by
  obtain ⟨chunks, ending, rfl, _, hending, rfl⟩ := h
  have hnone : ending.flatMap RecvResult.data = [] := List.flatMap_eq_nil_iff.mpr hending
  have hprefix : ((chunks ++ ending).take n).flatMap RecvResult.data <+:
      chunks.flatMap RecvResult.data := by
    refine ⟨((chunks ++ ending).drop n).flatMap RecvResult.data, ?_⟩
    rw [← List.flatMap_append, List.take_append_drop, List.flatMap_append, hnone, List.append_nil]
  obtain ⟨k, hk⟩ : ∃ k, ((chunks ++ ending).take n).flatMap RecvResult.data =
      (chunks.flatMap RecvResult.data).take k := ⟨_, List.prefix_iff_eq_take.mp hprefix⟩
  refine ⟨min (responseSize - 1) k, Nat.min_le_left _ _, ?_⟩
  rw [fill, List.nil_append, hk, List.take_take]

theorem Delivers.complete_of_some (h : Delivers stream recvs) {response : List Byte}
    (hr : recvLoop recvs [] = some response) :
    ∃ m ≤ responseSize - 1, response = stream.take m ∧ Complete response := by
  obtain ⟨n, harrives, rfl⟩ :=
    (recvLoop_arrives (Nat.zero_le _) not_complete_nil recvs response).mp hr
  obtain ⟨m, hm, hfill⟩ := h.buffered n
  exact ⟨m, hm, hfill, harrives.complete⟩

theorem Delivers.incomplete_of_none (h : Delivers stream recvs) (hr : recvLoop recvs [] = none) {m : ℕ}
    (hm : m ≤ responseSize - 1) : ¬ Complete (stream.take m) := by
  intro hcomplete
  obtain ⟨chunks, ending, rfl, hchunks, _, rfl⟩ := h
  have hall : fill [] (chunks ++ ending) chunks.length =
      (chunks.flatMap RecvResult.data).take (responseSize - 1) := by
    rw [fill, List.take_left, List.nil_append]
  have hex : ∃ n, n ≤ chunks.length ∧ Complete (fill [] (chunks ++ ending) n) := by
    refine ⟨chunks.length, Nat.le_refl _, ?_⟩
    rw [hall]
    exact hcomplete.mono (List.take_prefix_take_left hm) (List.length_take_le _ _)
  classical
  have hfind := Nat.find_spec hex
  have harrives : Arrives [] (chunks ++ ending) (Nat.find hex) := by
    refine ⟨?_, fun r hr => ?_, hfind.2, fun k hk hc => ?_⟩
    · rw [List.length_append]
      exact Nat.le_add_right_of_le hfind.1
    · rw [List.take_append_of_le_length hfind.1] at hr
      exact hchunks r (List.mem_of_mem_take hr)
    · exact Nat.find_min hex hk ⟨Nat.le_trans (Nat.le_of_lt hk) hfind.1, hc⟩
  have hsome := (recvLoop_arrives (Nat.zero_le _) not_complete_nil _ _).mpr ⟨_, harrives, rfl⟩
  rw [hr] at hsome
  cases hsome

theorem exists_delivers {m : ℕ} (hm : m ≤ responseSize - 1) (hc : Complete (stream.take m)) :
    ∃ recvs, Delivers stream recvs ∧ recvLoop recvs [] = some (stream.take m) := by
  have hne : stream.take m ≠ [] := by
    intro hnil
    rw [hnil] at hc
    exact not_complete_nil hc
  have hextend : extend [] (.bytes (stream.take m)) = stream.take m := by
    simp only [extend, RecvResult.data, List.nil_append, List.length_nil, Nat.sub_zero]
    exact List.take_of_length_le (Nat.le_trans (List.length_take_le _ _) hm)
  have hempty : ([] : List Byte).length < responseSize - 1 := by decide
  have hloop (rest : List RecvResult) :
      recvLoop (.bytes (stream.take m) :: rest) [] = some (stream.take m) := by
    have hstop := (recvLoop_data hempty (r := .bytes (stream.take m)) hne rest).1
    rw [hextend] at hstop
    exact hstop hc
  by_cases hrest : stream.drop m = []
  · refine ⟨[.bytes (stream.take m)], ⟨[.bytes (stream.take m)], [], rfl, ?_, by simp, ?_⟩, hloop []⟩
    · simpa [RecvResult.data] using hne
    · have hsplit := List.take_append_drop m stream
      rw [hrest, List.append_nil] at hsplit
      simpa [RecvResult.data] using hsplit
  · refine ⟨[.bytes (stream.take m), .bytes (stream.drop m)],
      ⟨[.bytes (stream.take m), .bytes (stream.drop m)], [], rfl, ?_, by simp, ?_⟩, hloop _⟩
    · intro r hr
      simp only [List.mem_cons, List.not_mem_nil, or_false] at hr
      rcases hr with rfl | rfl
      · exact hne
      · exact hrest
    · simp [RecvResult.data]

end Arriving

section Header

variable {stream : List Byte}

theorem headerLength_spec (h : headerEnd <:+: stream.take (responseSize - 1)) :
    ∃ before, stream.take (headerLength stream) = before ++ headerEnd ∧
      headerLength stream ≤ responseSize - 1 := by
  obtain ⟨before, rest, hcut⟩ := exists_cutAt (h.trans (List.take_prefix _ _).isInfix)
  have hfirst := cutAt_first hcut h
  obtain ⟨rfl, more, rfl⟩ := cutAt_eq_some hcut
  refine ⟨before, ?_, ?_⟩
  · simp only [headerLength, hcut]
    rw [← List.append_assoc, ← List.length_append, List.take_left]
  · simpa only [headerLength, hcut] using hfirst

theorem visible_prefix (stream : List Byte) (m : ℕ) :
    visible stream m <+: stream ∧ (visible stream m).length ≤ m := by
  have hp := CString.ofBuffer_prefix (stream.take m)
  refine ⟨hp.trans (List.take_prefix _ _), ?_⟩
  exact Nat.le_trans hp.length_le (List.length_take_le _ _)

theorem take_split (stream : List Byte) {k m : ℕ} (hkm : k ≤ m) :
    stream.take m = stream.take k ++ (stream.drop k).take (m - k) := by
  rw [← List.take_add, Nat.add_sub_cancel' hkm]

theorem visible_extend (stream : List Byte) {k m : ℕ} (hkm : k ≤ m) :
    (0 ∈ stream.take k ∧ visible stream m = visible stream k) ∨
      (0 ∉ stream.take k ∧ visible stream k = stream.take k ∧
        ∃ more, visible stream m = visible stream k ++ more) := by
  rw [visible, visible, take_split stream hkm]
  by_cases hz : 0 ∈ stream.take k
  · exact Or.inl ⟨hz, CString.ofBuffer_append_of_mem hz _⟩
  · refine Or.inr ⟨hz, CString.ofBuffer_of_notMem hz,
      (CString.ofBuffer ((stream.drop k).take (m - k))).bytes, ?_⟩
    rw [CString.ofBuffer_append_of_notMem hz, CString.ofBuffer_of_notMem hz]

theorem headerLength_le (h : headerEnd <:+: stream.take (responseSize - 1)) {m : ℕ}
    (hm : m ≤ responseSize - 1) (hc : Complete (stream.take m)) : headerLength stream ≤ m := by
  rcases hc with hfull | hheader
  · obtain ⟨_, _, hle⟩ := headerLength_spec h
    rw [List.length_take] at hfull
    omega
  · obtain ⟨before, rest, hcut⟩ := exists_cutAt (h.trans (List.take_prefix _ _).isInfix)
    obtain ⟨hp, hle⟩ := visible_prefix stream m
    have hfirst := cutAt_first hcut (m := (visible stream m).length)
      (by rwa [← List.prefix_iff_eq_take.mp hp])
    rw [headerLength, hcut]
    exact Nat.le_trans hfirst hle

theorem visible_agree_iff (h : headerEnd <:+: stream.take (responseSize - 1)) {ω : Type*}
    (f : List Byte → ω) :
    (∀ m m', m ≤ responseSize - 1 → m' ≤ responseSize - 1 → Complete (stream.take m) →
        Complete (stream.take m') → f (visible stream m) = f (visible stream m')) ↔
      ∀ m, headerLength stream ≤ m → m ≤ responseSize - 1 →
        f (visible stream m) = f (visible stream (headerLength stream)) := by
  constructor
  · intro hall m hge hm
    rcases visible_extend stream hge with ⟨_, hsame⟩ | ⟨hz, hheader, _⟩
    · rw [hsame]
    · obtain ⟨before, hbefore, hle⟩ := headerLength_spec h
      have hcomplete : Complete (stream.take (headerLength stream)) := by
        refine Or.inr ?_
        rw [CString.ofBuffer_of_notMem hz, hbefore]
        exact (List.suffix_append _ _).isInfix
      apply hall m _ hm hle _ hcomplete
      exact hcomplete.mono (List.take_prefix_take_left hge)
        (Nat.le_trans (List.length_take_le _ _) hm)
  · intro hall m m' hm hm' hc hc'
    rw [hall m (headerLength_le h hm hc) hm, hall m' (headerLength_le h hm' hc') hm']

end Header

section Outcome

variable {env : ServerEnv} {old : RlTime}

def outcome (env : ServerEnv) (old : RlTime) (response : List Byte) : ℤ × RlTime :=
  let r := readTime env response old []
  (r.code, r.time)

theorem outcome_notOk {s : List Byte}
    (h : ¬ (text "HTTP/" <+: s ∧ text "200 OK" <:+: s)) :
    outcome env old s = (RL_FALSE, old) := by
  rw [outcome, readTime, if_pos ((notOk_iff s).mpr h)]

theorem outcome_noDate {s : List Byte} (h : text "HTTP/" <+: s ∧ text "200 OK" <:+: s)
    (hd : ∀ dateStr, dateField s ≠ .found dateStr) : outcome env old s = (RL_FAILED, old) := by
  rw [outcome, readTime, if_neg (fun hbad => (notOk_iff s).mp hbad h)]
  cases hdate : dateField s with
  | missing => rfl
  | malformed => rfl
  | found dateStr => exact absurd hdate (hd dateStr)

theorem outcome_date {s : List Byte} (h : text "HTTP/" <+: s ∧ text "200 OK" <:+: s)
    {dateStr : List Byte} (hd : dateField s = .found dateStr) :
    outcome env old s = (if (env.strptime dateStr dateFormat .zero).2 then RL_SUCCESS else RL_FAILED,
      (env.strptime dateStr dateFormat .zero).1) := by
  rw [outcome, readTime, if_neg (fun hbad => (notOk_iff s).mp hbad h)]
  simp only [hd]
  cases hok : (env.strptime dateStr dateFormat .zero).2 <;> simp

theorem dateField_missing {s : List Byte} (h : ¬ text "Date: " <:+: s) : dateField s = .missing := by
  rw [dateField, strstr, cutAt_eq_none.mpr h]
  rfl

theorem dateField_append {s : List Byte} {dateStr : List Byte} (h : dateField s = .found dateStr)
    (more : List Byte) : dateField (s ++ more) = .found dateStr := by
  cases hcut : cutAt (text "Date: ") s with
  | none => simp [dateField, strstr, hcut] at h
  | some r =>
    obtain ⟨before, rest⟩ := r
    cases hline : cutAt (text "\r\n") rest with
    | none => simp [dateField, strstr, hcut, hline] at h
    | some q =>
      obtain ⟨line, tail⟩ := q
      simp only [dateField, strstr, hcut, Option.map_some, hline] at h
      simp only [dateField, strstr, cutAt_append hcut, Option.map_some, cutAt_append hline, h]

theorem dateField_header {s : List Byte} (h : text "Date: " <:+: s) (he : headerEnd <:+ s) :
    ∃ dateStr, dateField s = .found dateStr := by
  obtain ⟨before, rest, hcut⟩ := exists_cutAt h
  obtain ⟨rfl, hn⟩ := cutAt_eq_some hcut
  have hlength : headerEnd.length ≤ rest.length := by
    have hle := hn.length_le
    have hdate : (text "Date: ").length = 6 := by decide
    have hend : headerEnd.length = 4 := by decide
    omega
  have hrest : headerEnd <:+ rest :=
    List.suffix_of_suffix_length_le he (List.suffix_append before rest) hlength
  have hcrlf : text "\r\n" <:+: rest := by
    have hin : text "\r\n" <:+: headerEnd := by decide
    exact hin.trans hrest.isInfix
  obtain ⟨line, tail, hline⟩ := exists_cutAt hcrlf
  exact ⟨line.drop 6, by simp only [dateField, strstr, hcut, Option.map_some, hline]⟩

theorem http_header {header more : List Byte} (h : more = [] ∨ headerEnd <:+ header) :
    text "HTTP/" <+: header ++ more ↔ text "HTTP/" <+: header := by
  constructor
  · intro hp
    rcases h with rfl | hend
    · rwa [List.append_nil] at hp
    · rcases List.prefix_or_prefix_of_prefix hp (List.prefix_append header more) with hp | hp
      · exact hp
      · exact absurd (hend.isInfix.trans hp.isInfix) (by decide)
  · intro hp
    exact hp.trans (List.prefix_append header more)

theorem date_accepted_iff (r : RlTime × Bool) :
    ((if r.2 then RL_SUCCESS else RL_FAILED, r.1) = (RL_FALSE, old)) ↔ r = (old, true) := by
  obtain ⟨time, ok⟩ := r
  cases ok <;> simp [RL_SUCCESS, RL_FAILED, RL_FALSE]

theorem date_rejected_iff (r : RlTime × Bool) :
    ((if r.2 then RL_SUCCESS else RL_FAILED, r.1) = (RL_FAILED, old)) ↔ r = (old, false) := by
  obtain ⟨time, ok⟩ := r
  cases ok <;> simp [RL_SUCCESS, RL_FAILED]

theorem outcome_agrees_of_ok {header more : List Byte} (hext : more = [] ∨ headerEnd <:+ header)
    (hhttp : text "HTTP/" <+: header) (hok : text "200 OK" <:+: header) :
    outcome env old (header ++ more) = outcome env old header ↔
      text "Date: " <:+: header ∨
        ∀ dateStr, dateField (header ++ more) = .found dateStr →
          env.strptime dateStr dateFormat .zero = (old, false) := by
  have hhttp' : text "HTTP/" <+: header ++ more := (http_header hext).mpr hhttp
  have hok' : text "200 OK" <:+: header ++ more :=
    hok.trans (List.prefix_append header more).isInfix
  by_cases hdate : text "Date: " <:+: header
  · -- the date is the header's in either buffer
    simp only [hdate, true_or, iff_true]
    rcases hext with rfl | hend
    · rw [List.append_nil]
    · obtain ⟨dateStr, hfound⟩ := dateField_header hdate hend
      rw [outcome_date ⟨hhttp', hok'⟩ (dateField_append hfound more),
        outcome_date ⟨hhttp, hok⟩ hfound]
  · have hheader : outcome env old header = (RL_FAILED, old) := by
      apply outcome_noDate ⟨hhttp, hok⟩
      rw [dateField_missing hdate]
      exact fun _ => DateField.noConfusion
    rw [hheader]
    simp only [hdate, false_or]
    cases hfield : dateField (header ++ more) with
    | found dateStr =>
      rw [outcome_date ⟨hhttp', hok'⟩ hfield, date_rejected_iff]
      simp
    | missing => simp [outcome_noDate ⟨hhttp', hok'⟩ (by simp [hfield])]
    | malformed => simp [outcome_noDate ⟨hhttp', hok'⟩ (by simp [hfield])]

theorem outcome_agrees_of_notOk {header more : List Byte}
    (hhttp : text "HTTP/" <+: header ++ more) (hok : ¬ text "200 OK" <:+: header) :
    outcome env old (header ++ more) = outcome env old header ↔
      (text "200 OK" <:+: header ++ more →
        ∃ dateStr, dateField (header ++ more) = .found dateStr ∧
          env.strptime dateStr dateFormat .zero = (old, true)) := by
  have hheader : outcome env old header = (RL_FALSE, old) := outcome_notOk (fun h => hok h.2)
  rw [hheader]
  by_cases hok' : text "200 OK" <:+: header ++ more
  · simp only [hok', true_implies]
    cases hfield : dateField (header ++ more) with
    | found dateStr =>
      rw [outcome_date ⟨hhttp, hok'⟩ hfield, date_accepted_iff]
      simp
    | missing =>
      simp [outcome_noDate ⟨hhttp, hok'⟩ (by simp [hfield]), RL_FAILED, RL_FALSE]
    | malformed =>
      simp [outcome_noDate ⟨hhttp, hok'⟩ (by simp [hfield]), RL_FAILED, RL_FALSE]
  · rw [outcome_notOk (fun h => hok' h.2)]
    simp [hok']

theorem outcome_agrees_iff {header more : List Byte} (hext : more = [] ∨ headerEnd <:+ header)
    (hhttp : text "HTTP/" <+: header) :
    outcome env old (header ++ more) = outcome env old header ↔
      (text "200 OK" <:+: header → text "Date: " <:+: header ∨
        ∀ dateStr, dateField (header ++ more) = .found dateStr →
          env.strptime dateStr dateFormat .zero = (old, false)) ∧
      (¬ text "200 OK" <:+: header → text "200 OK" <:+: header ++ more →
        ∃ dateStr, dateField (header ++ more) = .found dateStr ∧
          env.strptime dateStr dateFormat .zero = (old, true)) := by
  by_cases hok : text "200 OK" <:+: header
  · rw [outcome_agrees_of_ok hext hhttp hok]
    simp only [hok, not_true_eq_false, false_implies, and_true, true_implies]
  · rw [outcome_agrees_of_notOk ((http_header hext).mpr hhttp) hok]
    simp only [hok, false_implies, true_and, not_false_eq_true, true_implies]

end Outcome

section Answer

variable {env : ServerEnv} {trySec : BitVec 32} {old : RlTime} {stream : List Byte}

theorem readTime_outcome (recvs : List RecvResult) (response : List Byte) (held : List Resource) :
    let r := readTime { env with recv := recvs } response old held
    (r.code, r.time) = outcome env old response := by
  simp only [outcome, readTime]
  by_cases hbad : strncmpZero response (text "HTTP/") 5 = false ∨
      strstr response (text "200 OK") = none
  · simp only [hbad, ↓reduceIte]
  · simp only [hbad, ↓reduceIte]
    cases dateField response with
    | missing => rfl
    | malformed => rfl
    | found dateStr => cases hok : (env.strptime dateStr dateFormat .zero).2 <;> simp [hok]

theorem answer_connected (h : Connected env trySec) (recvs : List RecvResult) :
    answer trySec old env recvs =
      match recvLoop recvs [] with
      | none => (RL_FALSE, old)
      | some response => outcome env old (CString.ofBuffer response).bytes := by
  obtain ⟨⟨hsocket, hreceive, hsend⟩, address, haddress, hconnect, hrequest⟩ := h
  simp only [answer, rlGetTimeFromServer, askServer, hsocket, hreceive, hsend, haddress, hconnect,
    hrequest, Bool.true_eq_false, ↓reduceIte]
  cases recvLoop recvs [] with
  | none => rfl
  | some response => exact readTime_outcome recvs _ _

theorem server_notConnected (h : ¬ Connected env trySec) : ∃ code held, ∀ recvs,
    rlGetTimeFromServer trySec old { env with recv := recvs } = ⟨code, old, none, held⟩ := by
  by_cases hsocket : env.socket = false
  · exact ⟨RL_FAILED, [], fun recvs => by simp only [rlGetTimeFromServer, hsocket, ↓reduceIte]⟩
  by_cases hreceive : env.setsockopt .receive trySec = false
  · exact ⟨RL_FAILED, [], fun recvs => if_neg hsocket |>.trans (if_pos hreceive)⟩
  by_cases hsend : env.setsockopt .send trySec = false
  · exact ⟨RL_FAILED, [], fun recvs => if_neg hsocket |>.trans (if_neg hreceive |>.trans (if_pos hsend))⟩
  simp only [Bool.not_eq_false] at hsocket hreceive hsend
  cases haddress : env.getaddrinfo GET_TIME_SOCKET_DNS with
  | none =>
    exact ⟨RL_FAILED, [], fun recvs => by
      simp [rlGetTimeFromServer, hsocket, hreceive, hsend, haddress, close]⟩
  | some address =>
    by_cases hready : env.connect address GET_TIME_SOCKET_PORT = true ∧ env.send request = true
    · exact absurd ⟨⟨hsocket, hreceive, hsend⟩, address, haddress, hready⟩ h
    refine ⟨RL_FALSE, [], fun recvs => ?_⟩
    cases hconnect : env.connect address GET_TIME_SOCKET_PORT with
    | false =>
      simp [rlGetTimeFromServer, askServer, hsocket, hreceive, hsend, haddress, hconnect, close,
        freeaddrinfo]
    | true =>
      have hrequest : env.send request = false := by
        rw [← Bool.not_eq_true]
        exact fun hsent => hready ⟨hconnect, hsent⟩
      simp [rlGetTimeFromServer, askServer, hsocket, hreceive, hsend, haddress, hconnect, hrequest,
        close, freeaddrinfo]

theorem answer_notConnected (h : ¬ Connected env trySec) (recvs recvs' : List RecvResult) :
    answer trySec old env recvs = answer trySec old env recvs' := by
  obtain ⟨code, held, hserver⟩ : ∃ code held, ∀ recvs, rlGetTimeFromServer trySec old
      { env with recv := recvs } = ⟨code, old, none, held⟩ := server_notConnected h
  simp only [answer, hserver]

theorem splitIndependent_iff (hc : Connected env trySec) :
    SplitIndependent trySec old env stream ↔
      ∀ m m', m ≤ responseSize - 1 → m' ≤ responseSize - 1 → Complete (stream.take m) →
        Complete (stream.take m') →
        outcome env old (visible stream m) = outcome env old (visible stream m') := by
  constructor
  · intro hall m m' hm hm' hcomplete hcomplete'
    obtain ⟨recvs, hd, hloop⟩ := exists_delivers hm hcomplete
    obtain ⟨recvs', hd', hloop'⟩ := exists_delivers hm' hcomplete'
    have hanswer := hall recvs recvs' hd hd'
    rw [answer_connected hc, answer_connected hc, hloop, hloop'] at hanswer
    exact hanswer
  · intro hall recvs recvs' hd hd'
    rw [answer_connected hc, answer_connected hc]
    cases hloop : recvLoop recvs [] with
    | none =>
      cases hloop' : recvLoop recvs' [] with
      | none => rfl
      | some response =>
        obtain ⟨m, hm, rfl, hcomplete⟩ := hd'.complete_of_some hloop'
        exact absurd hcomplete (hd.incomplete_of_none hloop hm)
    | some response =>
      obtain ⟨m, hm, rfl, hcomplete⟩ := hd.complete_of_some hloop
      cases hloop' : recvLoop recvs' [] with
      | none => exact absurd hcomplete (hd'.incomplete_of_none hloop' hm)
      | some response' =>
        obtain ⟨m', hm', rfl, hcomplete'⟩ := hd'.complete_of_some hloop'
        exact hall m m' hm hm' hcomplete hcomplete'

theorem visible_header (h : headerEnd <:+: stream.take (responseSize - 1)) {m : ℕ}
    (hm : headerLength stream ≤ m) :
    ∃ more, visible stream m = visible stream (headerLength stream) ++ more ∧
      (more = [] ∨ headerEnd <:+ visible stream (headerLength stream)) := by
  rcases visible_extend stream hm with ⟨_, hsame⟩ | ⟨_, hheader, more, hmore⟩
  · exact ⟨[], by rw [hsame, List.append_nil], Or.inl rfl⟩
  · obtain ⟨before, hbefore, _⟩ := headerLength_spec h
    refine ⟨more, hmore, Or.inr ?_⟩
    rw [hheader, hbefore]
    exact List.suffix_append _ _

theorem headerDecides_iff (h : headerEnd <:+: stream.take (responseSize - 1)) :
    (∀ m, headerLength stream ≤ m → m ≤ responseSize - 1 →
        outcome env old (visible stream m) =
          outcome env old (visible stream (headerLength stream))) ↔
      (text "HTTP/" <+: visible stream (headerLength stream) → HeaderDecides env old stream) := by
  obtain ⟨_, _, hle⟩ := headerLength_spec h
  by_cases hhttp : text "HTTP/" <+: visible stream (headerLength stream)
  · simp only [hhttp, true_implies]
    constructor
    · intro hall
      refine ⟨fun hok => ?_, fun hok m hge hm hok' => ?_⟩
      · obtain ⟨more, hmore, hext⟩ := visible_header h hle
        have hfull := hall _ hle (Nat.le_refl _)
        rw [hmore, outcome_agrees_iff hext hhttp] at hfull
        rw [hmore]
        exact hfull.1 hok
      · obtain ⟨more, hmore, hext⟩ := visible_header h hge
        have hpart := hall m hge hm
        rw [hmore, outcome_agrees_iff hext hhttp] at hpart
        rw [hmore] at hok' ⊢
        exact hpart.2 hok hok'
    · intro hd m hge hm
      obtain ⟨more, hmore, hext⟩ := visible_header h hge
      rw [hmore, outcome_agrees_iff hext hhttp, ← hmore]
      refine ⟨fun hok => (hd.date hok).imp_right ?_, fun hok => hd.status hok m hge hm⟩
      intro hdate dateStr hfound
      apply hdate dateStr
      -- a date found in part of the buffer is the date of the whole
      rcases visible_extend stream hm with ⟨_, hsame⟩ | ⟨_, _, rest, hrest⟩
      · rwa [hsame]
      · rw [hrest]
        exact dateField_append hfound rest
  · simp only [hhttp, false_implies, iff_true]
    intro m hge hm
    obtain ⟨more, hmore, hext⟩ := visible_header h hge
    rw [hmore, outcome_notOk (fun hb => hhttp ((http_header hext).mp hb.1)),
      outcome_notOk (fun hb => hhttp hb.1)]

end Answer

/-- Any two ways of delivering the stream give the same answer if and only if the call gives
up before it reads, the reply is not HTTP, or what is found in the header decides. -/
theorem split_independent_iff (trySec : BitVec 32) (old : RlTime) (env : ServerEnv)
    (stream : List Byte) (hend : headerEnd <:+: stream.take (responseSize - 1)) :
    SplitIndependent trySec old env stream ↔
      (Connected env trySec → text "HTTP/" <+: visible stream (headerLength stream) →
        HeaderDecides env old stream) := by
  by_cases hc : Connected env trySec
  · rw [splitIndependent_iff hc, visible_agree_iff hend, headerDecides_iff hend]
    simp only [hc, true_implies]
  · simp only [hc, false_implies, iff_true]
    exact fun recvs recvs' _ _ => answer_notConnected hc recvs recvs'

section Examples

def serverUp (strptime : List Byte → String → RlTime → RlTime × Bool) : ServerEnv :=
  { socket := true
    setsockopt := fun _ _ => true
    getaddrinfo := fun _ => some 0x0100007f#32
    connect := fun _ _ => true
    send := fun _ => true
    recv := []
    strptime := strptime }

def notFound : List Byte := text "HTTP/1.1 404 Not Found\r\n\r\n"

theorem split_independent_iff_notFound :
    SplitIndependent 5#32 .zero (serverUp fun _ _ time => (time, false)) notFound ↔
      (Connected (serverUp fun _ _ time => (time, false)) 5#32 →
        text "HTTP/" <+: visible notFound (headerLength notFound) →
        HeaderDecides (serverUp fun _ _ time => (time, false)) .zero notFound) :=
  split_independent_iff 5#32 .zero _ notFound (by decide)

theorem body_decides_status :
    headerEnd <:+: (notFound ++ text "200 OK").take (responseSize - 1) ∧
      ¬ SplitIndependent 5#32 .zero (serverUp fun _ _ time => (time, false))
        (notFound ++ text "200 OK") := by
  refine ⟨by decide, fun h => ?_⟩
  have hsame := h [.bytes notFound, .bytes (text "200 OK")] [.bytes (notFound ++ text "200 OK")]
    ⟨[.bytes notFound, .bytes (text "200 OK")], [], rfl, by decide, by decide, by decide⟩
    ⟨[.bytes (notFound ++ text "200 OK")], [], rfl, by decide, by decide, by decide⟩
  exact absurd (congrArg Prod.fst hsame) (by decide)

end Examples

end RlLibrary.Time
