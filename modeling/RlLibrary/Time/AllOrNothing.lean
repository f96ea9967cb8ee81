import RlLibrary.Time.Server

namespace RlLibrary.Time

open Foundation

def AllOrNothing (env : ServerEnv) (old : RlTime) (r : ServerResult) : Prop :=
  (r.code = RL_SUCCESS ∧ ∃ dateStr, r.accepted = some dateStr ∧
    env.strptime dateStr dateFormat .zero = (r.time, true)) ∨
  (r.code ≠ RL_SUCCESS ∧ r.time = old)

section Receiving

def RecvResult.data : RecvResult → List Byte
  | failed => []
  | bytes chunk => chunk

def fill (acc : List Byte) (recvs : List RecvResult) (n : ℕ) : List Byte :=
  (acc ++ (recvs.take n).flatMap RecvResult.data).take (responseSize - 1)

def Complete (buf : List Byte) : Prop :=
  buf.length = responseSize - 1 ∨ headerEnd <:+: (CString.ofBuffer buf).bytes

structure Arrives (acc : List Byte) (recvs : List RecvResult) (n : ℕ) : Prop where
  enough : n ≤ recvs.length
  data : ∀ r ∈ recvs.take n, r.data ≠ []
  complete : Complete (fill acc recvs n)
  first : ∀ m < n, ¬ Complete (fill acc recvs m)

theorem fill_zero {acc : List Byte} (hacc : acc.length ≤ responseSize - 1)
    (recvs : List RecvResult) : fill acc recvs 0 = acc := by
  simp only [fill, List.take_zero, List.flatMap_nil, List.append_nil]
  exact List.take_of_length_le hacc

def extend (acc : List Byte) (r : RecvResult) : List Byte :=
  acc ++ r.data.take (responseSize - acc.length - 1)

theorem fill_succ (acc : List Byte) (r : RecvResult) (recvs : List RecvResult) (n : ℕ) :
    fill acc (r :: recvs) (n + 1) = fill (extend acc r) recvs n := by
  have hroom : responseSize - acc.length - 1 = responseSize - 1 - acc.length := by omega
  simp only [fill, extend, List.take_succ_cons, List.flatMap_cons, hroom]
  rw [← List.append_assoc, List.take_append, List.take_append, List.take_append, List.take_append,
    List.take_take, Nat.min_self]
  congr 2
  simp only [List.length_append, List.length_take]
  omega

theorem extend_length {acc : List Byte} (hacc : acc.length ≤ responseSize - 1) (r : RecvResult) :
    (extend acc r).length ≤ responseSize - 1 := by
  simp only [extend, List.length_append, List.length_take]
  omega

theorem arrives_zero_iff {acc : List Byte} (hacc : acc.length ≤ responseSize - 1)
    (recvs : List RecvResult) : Arrives acc recvs 0 ↔ Complete acc := by
  constructor
  · intro h
    have hcomplete := h.complete
    rwa [fill_zero hacc] at hcomplete
  · intro hc
    refine ⟨Nat.zero_le _, fun q hq => by simp at hq, ?_, fun m hm => absurd hm (Nat.not_lt_zero m)⟩
    rwa [fill_zero hacc]

theorem Arrives.eq_zero {acc : List Byte} {recvs : List RecvResult} {n : ℕ}
    (h : Arrives acc recvs n) (hacc : acc.length ≤ responseSize - 1) (hc : Complete acc) : n = 0 := by
  by_contra hn
  have hfirst := h.first 0 (Nat.pos_of_ne_zero hn)
  rw [fill_zero hacc] at hfirst
  exact hfirst hc

theorem arrives_succ {acc : List Byte} (hacc : acc.length ≤ responseSize - 1)
    (hc : ¬ Complete acc) {r : RecvResult} (hr : r.data ≠ []) (recvs : List RecvResult) (n : ℕ) :
    Arrives acc (r :: recvs) (n + 1) ↔ Arrives (extend acc r) recvs n := by
  constructor
  · intro h
    refine ⟨Nat.le_of_succ_le_succ h.enough, fun q hq => ?_, ?_, fun m hm => ?_⟩
    · apply h.data q
      rw [List.take_succ_cons]
      exact List.mem_cons_of_mem _ hq
    · rw [← fill_succ]
      exact h.complete
    · rw [← fill_succ]
      exact h.first (m + 1) (Nat.succ_lt_succ hm)
  · intro h
    refine ⟨Nat.succ_le_succ h.enough, fun q hq => ?_, ?_, fun m hm => ?_⟩
    · rw [List.take_succ_cons] at hq
      rcases List.mem_cons.mp hq with rfl | hq
      · exact hr
      · exact h.data q hq
    · rw [fill_succ]
      exact h.complete
    · cases m with
      | zero =>
        rw [fill_zero hacc]
        exact hc
      | succ m =>
        rw [fill_succ]
        exact h.first m (Nat.lt_of_succ_lt_succ hm)

theorem arrives_cons_iff {acc : List Byte} (hacc : acc.length ≤ responseSize - 1)
    (hc : ¬ Complete acc) {r : RecvResult} (hr : r.data ≠ []) (recvs : List RecvResult) (n : ℕ) :
    Arrives acc (r :: recvs) n ↔ ∃ m, n = m + 1 ∧ Arrives (extend acc r) recvs m := by
  constructor
  · intro h
    cases n with
    | zero => exact absurd ((arrives_zero_iff hacc _).mp h) hc
    | succ m => exact ⟨m, rfl, (arrives_succ hacc hc hr recvs m).mp h⟩
  · rintro ⟨m, rfl, h⟩
    exact (arrives_succ hacc hc hr recvs m).mpr h

theorem recvLoop_empty {acc : List Byte} {r : RecvResult} (hr : r.data = [])
    (recvs : List RecvResult) : recvLoop (r :: recvs) acc = none := by
  cases r with
  | failed => rfl
  | bytes chunk =>
    have hchunk : chunk = [] := hr
    simp [recvLoop, hchunk]

theorem recvLoop_data {acc : List Byte} (hacc : acc.length < responseSize - 1) {r : RecvResult}
    (hr : r.data ≠ []) (recvs : List RecvResult) :
    (Complete (extend acc r) → recvLoop (r :: recvs) acc = some (extend acc r)) ∧
      (¬ Complete (extend acc r) → recvLoop (r :: recvs) acc = recvLoop recvs (extend acc r)) := by
  cases r with
  | failed => exact absurd rfl hr
  | bytes chunk =>
    change chunk ≠ [] at hr
    have hlength := extend_length (Nat.le_of_lt hacc) (.bytes chunk)
    have hgot : chunk.take (responseSize - acc.length - 1) ≠ [] := by
      rw [ne_eq, List.take_eq_nil_iff, not_or]
      exact ⟨by omega, hr⟩
    have hstep : recvLoop (.bytes chunk :: recvs) acc =
        if (extend acc (.bytes chunk)).length ≥ responseSize - 1 then some (extend acc (.bytes chunk))
        else if (strstr (CString.ofBuffer (extend acc (.bytes chunk))).bytes headerEnd).isSome then
          some (extend acc (.bytes chunk))
        else recvLoop recvs (extend acc (.bytes chunk)) := by
      simp only [recvLoop, hgot, ↓reduceIte]
      rfl
    rw [hstep]
    constructor
    · rintro (hfull | hheader)
      · rw [if_pos (Nat.le_of_eq hfull.symm)]
      · rw [if_pos (strstr_isSome.mpr hheader), ite_self]
    · intro hnot
      have hless : ¬ (extend acc (.bytes chunk)).length ≥ responseSize - 1 :=
        fun hge => hnot (Or.inl (Nat.le_antisymm hlength hge))
      rw [if_neg hless, if_neg (fun hheader => hnot (Or.inr (strstr_isSome.mp hheader)))]

theorem recvLoop_arrives {acc : List Byte} (hacc : acc.length ≤ responseSize - 1)
    (hc : ¬ Complete acc) (recvs : List RecvResult) (response : List Byte) :
    recvLoop recvs acc = some response ↔
      ∃ n, Arrives acc recvs n ∧ response = fill acc recvs n := by
  induction recvs generalizing acc with
  | nil =>
    constructor
    · intro h
      cases h
    · rintro ⟨n, h, _⟩
      have hn : n = 0 := Nat.le_zero.mp h.enough
      rw [hn] at h
      exact absurd ((arrives_zero_iff hacc _).mp h) hc
  | cons r recvs ih =>
    have hless : acc.length < responseSize - 1 :=
      Nat.lt_of_le_of_ne hacc (fun he => hc (Or.inl he))
    by_cases hr : r.data = []
    · rw [recvLoop_empty hr]
      constructor
      · intro h
        cases h
      · rintro ⟨n, h, _⟩
        cases n with
        | zero => exact absurd ((arrives_zero_iff hacc _).mp h) hc
        | succ n => exact absurd hr (h.data r (by simp))
    · have hextend := extend_length hacc r
      obtain ⟨hstop, hgo⟩ := recvLoop_data hless hr recvs
      simp only [arrives_cons_iff hacc hc hr]
      -- a complete buffer ends the loop at this receive, any other one is the next `acc`
      by_cases hnext : Complete (extend acc r)
      · rw [hstop hnext]
        constructor
        · rintro ⟨rfl⟩
          refine ⟨1, ⟨0, rfl, (arrives_zero_iff hextend recvs).mpr hnext⟩, ?_⟩
          rw [fill_succ, fill_zero hextend]
        · rintro ⟨_, ⟨m, rfl, h⟩, rfl⟩
          rw [fill_succ, h.eq_zero hextend hnext, fill_zero hextend]
      · rw [hgo hnext, ih hextend hnext]
        constructor
        · rintro ⟨m, h, rfl⟩
          exact ⟨m + 1, ⟨m, rfl, h⟩, (fill_succ ..).symm⟩
        · rintro ⟨_, ⟨m, rfl, h⟩, rfl⟩
          exact ⟨m, h, fill_succ ..⟩

theorem not_complete_nil : ¬ Complete [] := by
  rintro (hfull | hheader)
  · exact absurd hfull (by decide)
  · exact absurd (List.eq_nil_of_infix_nil hheader) (by decide)

end Receiving

section Reading

variable {env : ServerEnv} {old : RlTime}

/-- A reply that is read to the end: an HTTP 200 whose date field, if there is a well formed
one, `strptime` accepts or leaves where the time was. -/
def ReadThrough (env : ServerEnv) (old : RlTime) (response : List Byte) : Prop :=
  text "HTTP/" <+: response ∧ text "200 OK" <:+: response ∧
    ∀ dateStr, dateField response = .found dateStr →
      (env.strptime dateStr dateFormat .zero).2 = true ∨
        (env.strptime dateStr dateFormat .zero).1 = old

theorem strncmpZero_http (response : List Byte) :
    strncmpZero response (text "HTTP/") 5 = true ↔ text "HTTP/" <+: response := by
  have hlength : (text "HTTP/").length = 5 := by decide
  have htake : (text "HTTP/").take 5 = text "HTTP/" := by decide
  rw [List.prefix_iff_eq_take, hlength, strncmpZero, htake, decide_eq_true_eq]
  exact eq_comm

theorem notOk_iff (response : List Byte) :
    (strncmpZero response (text "HTTP/") 5 = false ∨ strstr response (text "200 OK") = none) ↔
      ¬ (text "HTTP/" <+: response ∧ text "200 OK" <:+: response) := by
  rw [not_and_or, ← strncmpZero_http, ← strstr_isSome, Bool.not_eq_true, Option.not_isSome_iff_eq_none]

theorem allOrNothing_success_code {r : ServerResult} (hcode : r.code = RL_SUCCESS)
    (hnone : r.accepted = none) : ¬ AllOrNothing env old r := by
  rintro (⟨_, dateStr, ha, _⟩ | ⟨hne, _⟩)
  · rw [hnone] at ha
    cases ha
  · exact hne hcode

theorem allOrNothing_failed {r : ServerResult} (hcode : r.code = RL_FAILED)
    (hnone : r.accepted = none) : AllOrNothing env old r ↔ r.time = old := by
  constructor
  · rintro (⟨_, dateStr, ha, _⟩ | ⟨_, htime⟩)
    · rw [hnone] at ha
      cases ha
    · exact htime
  · intro htime
    refine Or.inr ⟨?_, htime⟩
    rw [hcode]
    decide

theorem readTime_iff (response : List Byte) (held : List Resource) :
    AllOrNothing env old (readTime env response old held) ↔ ReadThrough env old response := by
  by_cases hhttp : text "HTTP/" <+: response ∧ text "200 OK" <:+: response
  · rw [readTime, if_neg (fun hbad => (notOk_iff response).mp hbad hhttp)]
    cases hdate : dateField response with
    | missing =>
      rw [allOrNothing_failed rfl rfl]
      simp [ReadThrough, hhttp, hdate]
    | malformed =>
      rw [allOrNothing_failed rfl rfl]
      simp [ReadThrough, hhttp, hdate]
    | found dateStr =>
      have hread : ReadThrough env old response ↔
          ((env.strptime dateStr dateFormat .zero).2 = true ∨
            (env.strptime dateStr dateFormat .zero).1 = old) := by
        simp [ReadThrough, hhttp, hdate]
      rw [hread]
      cases hok : (env.strptime dateStr dateFormat .zero).2 with
      | false =>
        simp only [hok, ↓reduceIte]
        rw [allOrNothing_failed rfl rfl]
        simp
      | true =>
        simp only [hok, Bool.true_eq_false, ↓reduceIte, true_or, iff_true]
        exact Or.inl ⟨rfl, dateStr, rfl, Prod.ext rfl hok⟩
  · rw [readTime, if_pos ((notOk_iff response).mpr hhttp)]
    constructor
    · intro h
      exact absurd h (allOrNothing_success_code rfl rfl)
    · intro h
      exact absurd ⟨h.1, h.2.1⟩ hhttp

def Prepared (env : ServerEnv) (trySec : BitVec 32) : Prop :=
  env.socket = true ∧ env.setsockopt .receive trySec = true ∧ env.setsockopt .send trySec = true

def Answered (env : ServerEnv) (old : RlTime) (address : BitVec 32) : Prop :=
  env.connect address GET_TIME_SOCKET_PORT = true ∧ env.send request = true ∧
    ∃ n, Arrives [] env.recv n ∧
      ReadThrough env old (CString.ofBuffer (fill [] env.recv n)).bytes

theorem arrives_unique {acc : List Byte} {recvs : List RecvResult} {m n : ℕ}
    (hm : Arrives acc recvs m) (hn : Arrives acc recvs n) : m = n := by
  apply Nat.le_antisymm
  · apply Nat.le_of_not_lt
    intro hlt
    exact hm.first n hlt hn.complete
  · apply Nat.le_of_not_lt
    intro hlt
    exact hn.first m hlt hm.complete

theorem askServer_iff (address : BitVec 32) (held : List Resource) :
    AllOrNothing env old (askServer env address old held) ↔ Answered env old address := by
  have hempty : ([] : List Byte).length ≤ responseSize - 1 := Nat.zero_le _
  have hloop := recvLoop_arrives hempty not_complete_nil env.recv
  cases hconnect : env.connect address GET_TIME_SOCKET_PORT with
  | false =>
    simp only [askServer, hconnect, ↓reduceIte, Answered, Bool.false_eq_true, false_and, iff_false]
    exact allOrNothing_success_code rfl rfl
  | true =>
    cases hsend : env.send request with
    | false =>
      simp only [askServer, hconnect, hsend, Bool.true_eq_false, ↓reduceIte, Answered,
        Bool.false_eq_true, false_and, and_false, iff_false]
      exact allOrNothing_success_code rfl rfl
    | true =>
      simp only [askServer, hconnect, hsend, Bool.true_eq_false, ↓reduceIte, Answered, true_and]
      cases hrecv : recvLoop env.recv [] with
      | none =>
        constructor
        · intro h
          exact absurd h (allOrNothing_success_code rfl rfl)
        · rintro ⟨n, harrives, _⟩
          have hsome := (hloop (fill [] env.recv n)).mpr ⟨n, harrives, rfl⟩
          rw [hrecv] at hsome
          cases hsome
      | some received =>
        obtain ⟨n, harrives, rfl⟩ := (hloop received).mp hrecv
        rw [readTime_iff]
        constructor
        · intro h
          exact ⟨n, harrives, h⟩
        · rintro ⟨m, hm, h⟩
          rw [arrives_unique harrives hm]
          exact h

end Reading

/-- The call is all-or-nothing if and only if it fails before the connection, or the whole
exchange succeeds up to the date field. -/
theorem server_time_iff (trySec : BitVec 32) (old : RlTime) (env : ServerEnv) :
    AllOrNothing env old (rlGetTimeFromServer trySec old env) ↔
      (Prepared env trySec →
        ∀ address, env.getaddrinfo GET_TIME_SOCKET_DNS = some address → Answered env old address) := by
  cases hsocket : env.socket with
  | false =>
    simp only [rlGetTimeFromServer, hsocket, ↓reduceIte, Prepared, Bool.false_eq_true, false_and,
      false_implies, iff_true]
    exact (allOrNothing_failed rfl rfl).mpr rfl
  | true =>
    cases hreceive : env.setsockopt .receive trySec with
    | false =>
      simp only [rlGetTimeFromServer, hsocket, hreceive, Bool.true_eq_false, ↓reduceIte, Prepared,
        Bool.false_eq_true, false_and, and_false, false_implies, iff_true]
      exact (allOrNothing_failed rfl rfl).mpr rfl
    | true =>
      cases hsend : env.setsockopt .send trySec with
      | false =>
        simp only [rlGetTimeFromServer, hsocket, hreceive, hsend, Bool.true_eq_false, ↓reduceIte,
          Prepared, Bool.false_eq_true, and_false, false_implies, iff_true]
        exact (allOrNothing_failed rfl rfl).mpr rfl
      | true =>
        have hprepared : Prepared env trySec := ⟨hsocket, hreceive, hsend⟩
        simp only [rlGetTimeFromServer, hsocket, hreceive, hsend, Bool.true_eq_false, ↓reduceIte,
          hprepared, true_implies]
        cases haddress : env.getaddrinfo GET_TIME_SOCKET_DNS with
        | none =>
          simp only [reduceCtorEq, false_implies, implies_true, iff_true]
          exact (allOrNothing_failed rfl rfl).mpr rfl
        | some address =>
          simp only [Option.some.injEq, forall_eq']
          exact askServer_iff address _

theorem refused_connection_succeeds :
    ¬ ∀ (trySec : BitVec 32) (old : RlTime) (env : ServerEnv),
      AllOrNothing env old (rlGetTimeFromServer trySec old env) := by
  intro h
  let env : ServerEnv :=
    { socket := true
      setsockopt := fun _ _ => true
      getaddrinfo := fun _ => some 0x0100007f#32
      connect := fun _ _ => false
      send := fun _ => true
      recv := []
      strptime := fun _ _ time => (time, false) }
  have hall := h 5#32 .zero env
  rcases hall with ⟨_, dateStr, ha, _⟩ | ⟨hne, _⟩
  · cases ha
  · exact hne rfl

end RlLibrary.Time
