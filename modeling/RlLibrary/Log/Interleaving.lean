import RlLibrary.Foundation.Sections
import RlLibrary.Log.LineBounds

/-!
`rl_log_*` on any number of threads, with the section under `rl_log_mutex` cut at its system
calls. The level, the process name and the descriptor do not change meanwhile: they are set in
`rl_log_init`, before there are other threads.
-/

namespace RlLibrary.Log

open Foundation

structure LogRequest where
  level : LogLevel
  message : Option (List Byte)
  clock : WallClock
  tid : BitVec 32
  snprintf : Bool

inductive WritePoint where
  | stat (line : List Byte)
  | ftruncate (line : List Byte)
  | lseek (line : List Byte)
  | write (rest : List Byte)

inductive WriteAnswer where
  | stat (size : Option ℕ)
  | ftruncate (ok : Bool)
  | lseek (ok : Bool)
  | write (written : Option ℕ)
  deriving DecidableEq

def Writes.ofList (ns : List (Option ℕ)) : Writes where
  answer i count :=
    match ns[i]? with
    | some (some n) => if 0 < n ∧ n ≤ count then some n else none
    | _ => none
  lawful i count n _ hn := by
    split at hn
    · split_ifs at hn with hlawful
      cases hn
      exact hlawful
    · cases hn

def WriteAnswer.size : WriteAnswer → Option ℕ
  | .stat size => size
  | _ => none

def WriteAnswer.written : WriteAnswer → Option (Option ℕ)
  | .write n => some n
  | _ => none

/-- The answers that one section got, as `writeRlLog` takes them. -/
def LogRequest.env (q : LogRequest) (answers : List WriteAnswer) : WriteEnv where
  clock := q.clock
  tid := q.tid
  snprintf := q.snprintf
  stat := answers.findSome? WriteAnswer.size
  ftruncate := decide (.ftruncate true ∈ answers)
  lseek := decide (.lseek true ∈ answers)
  writes := .ofList (answers.filterMap WriteAnswer.written)

def LogRequest.toMessage (q : LogRequest) (answers : List WriteAnswer) : LogMessage :=
  ⟨q.level, q.message, q.env answers⟩

def LogRequest.line (w : LogWorld) (q : LogRequest) : List Byte := lineOf w (q.toMessage [])

def LogRequest.enter (w : LogWorld) (q : LogRequest) : WritePoint ⊕ ℤ :=
  if w.curRlLogLevel.code < q.level.code then .inr RL_FAILED else
  match q.message with
  | none => .inr RL_FAILED
  | some buf =>
    if buf.length ≥ RL_LOG_BUF_SIZE then .inr RL_FAILED else
    if w.logFileFd = none then .inr RL_FAILED else
    let line := formatLine w (q.env []) q.level (CString.ofBuffer buf)
    if q.snprintf = false then .inr RL_FAILED else
    .inl (.stat ((printed logBufSize line).take line.length))

def writing (rest : List Byte) : WritePoint ⊕ ℤ :=
  if rest = [] then .inr RL_SUCCESS else .inl (.write rest)

/-- `/tmp/Messages` names the file that is being written, and `write` answers -1 or how many
bytes it has written. -/
def WritePoint.Ready (file : List Byte) : WritePoint → WriteAnswer → Prop
  | .stat _, .stat size => ∀ n ∈ size, n = file.length
  | .ftruncate _, .ftruncate _ => True
  | .lseek _, .lseek _ => True
  | .write rest, .write written => ∀ n ∈ written, 0 < n ∧ n ≤ rest.length
  | _, _ => False

def WritePoint.step (file : List Byte) : WritePoint → WriteAnswer → List Byte × (WritePoint ⊕ ℤ)
  | .stat line, .stat (some size) =>
    (file, if size > RL_LOG_FILE_SIZE then .inl (.ftruncate line) else writing line)
  | .stat line, .stat none => (file, writing line)
  | .ftruncate line, .ftruncate true => ([], .inl (.lseek line))
  | .ftruncate _, .ftruncate false => (file, .inr RL_FAILED)
  | .lseek line, .lseek true => (file, writing line)
  | .lseek _, .lseek false => (file, .inr RL_FAILED)
  | .write rest, .write (some n) => (file ++ rest.take n, writing (rest.drop n))
  | .write _, .write none => (file, .inr RL_FAILED)
  | p, _ => (file, .inl p)

def logSections (w : LogWorld) : Sections (List Byte) LogRequest WritePoint WriteAnswer ℤ :=
  ⟨LogRequest.enter w, WritePoint.Ready, WritePoint.step⟩

section Alone

variable {w : LogWorld} {file file' rest line : List Byte} {as : List WriteAnswer} {r : ℤ}

theorem alone_ended (hv : (logSections w).alone.Valid (file, .inr r) as) : as = [] := by
  cases as with
  | nil => rfl
  | cons a as => exact hv.1.elim

theorem writing_alone (pre : List (Option ℕ))
    (hv : (logSections w).alone.Valid (file, writing rest) as)
    (hend : (logSections w).alone.exec (file, writing rest) as = (file', .inr r)) :
    ∃ ns : List (Option ℕ), as = ns.map .write ∧
      writeLoop (.ofList (pre ++ ns)) pre.length rest file = (r, file') := by
  induction as generalizing file rest pre with
  | nil =>
    rw [writing] at hend
    split_ifs at hend with hrest
    · cases hend
      exact ⟨[], rfl, by rw [hrest, writeLoop_nil]⟩
    · cases hend
  | cons a as ih =>
    rw [writing] at hv hend
    split_ifs at hv hend with hrest
    · exact absurd (alone_ended hv) (List.cons_ne_nil _ _)
    cases a with
    | stat size => exact hv.1.elim
    | ftruncate ok => exact hv.1.elim
    | lseek ok => exact hv.1.elim
    | write written =>
      cases written with
      | none =>
        obtain rfl := alone_ended hv.2
        cases hend
        have hanswer : (Writes.ofList (pre ++ [none])).answer pre.length rest.length = none := by
          simp [Writes.ofList]
        exact ⟨[none], rfl, writeLoop_error hrest hanswer file⟩
      | some n =>
        obtain ⟨ns, hns, hloop⟩ := ih (pre ++ [some n]) hv.2 hend
        have hlawful : 0 < n ∧ n ≤ rest.length := hv.1 n rfl
        have hanswer : (Writes.ofList (pre ++ some n :: ns)).answer pre.length rest.length =
            some n := by
          simp [Writes.ofList, hlawful]
        refine ⟨some n :: ns, by rw [hns, List.map_cons], ?_⟩
        rw [writeLoop_step hrest hanswer, ← hloop, List.length_append, List.length_singleton,
          List.append_assoc, List.singleton_append]

theorem filterMap_written (ns : List (Option ℕ)) :
    (ns.map WriteAnswer.write).filterMap WriteAnswer.written = ns := by
  have hsome : WriteAnswer.written ∘ WriteAnswer.write = some := rfl
  rw [List.filterMap_map, hsome, List.filterMap_some]

theorem findSome_size (ns : List (Option ℕ)) :
    (ns.map WriteAnswer.write).findSome? WriteAnswer.size = none := by
  simp [WriteAnswer.size]

def lockedPart (env : WriteEnv) (line file : List Byte) : ℤ × List Byte :=
  let (goesOn, file) := rotate env file
  if goesOn = false then (RL_FAILED, file) else writeLoop env.writes 0 line file

theorem emptied_alone (q : LogRequest) {n : ℕ} (hbig : n > RL_LOG_FILE_SIZE)
    (hv : (logSections w).alone.Valid (file, .inl (.ftruncate line)) as)
    (hend : (logSections w).alone.exec (file, .inl (.ftruncate line)) as = (file', .inr r)) :
    lockedPart (q.env (.stat (some n) :: as)) line file = (r, file') := by
  cases as with
  | nil => cases hend
  | cons a as =>
    cases a with
    | stat size => exact hv.1.elim
    | lseek ok => exact hv.1.elim
    | write written => exact hv.1.elim
    | ftruncate ok =>
      cases ok with
      | false =>
        obtain rfl := alone_ended hv.2
        cases hend
        simp [lockedPart, rotate, LogRequest.env, List.findSome?_cons, WriteAnswer.size, hbig]
      | true =>
        cases as with
        | nil => cases hend
        | cons a as =>
          cases a with
          | stat size => exact hv.2.1.elim
          | ftruncate ok => exact hv.2.1.elim
          | write written => exact hv.2.1.elim
          | lseek ok =>
            cases ok with
            | false =>
              obtain rfl := alone_ended hv.2.2
              cases hend
              simp [lockedPart, rotate, LogRequest.env, List.findSome?_cons, WriteAnswer.size, hbig]
              rfl
            | true =>
              obtain ⟨ns, rfl, hloop⟩ := writing_alone [] hv.2.2 hend
              simp only [lockedPart, rotate, LogRequest.env, List.findSome?_cons, WriteAnswer.size,
                hbig, List.filterMap_cons, WriteAnswer.written, filterMap_written, List.mem_cons,
                reduceCtorEq, true_or, or_true, decide_true, Bool.true_eq_false, ↓reduceIte]
              exact hloop

theorem section_alone (q : LogRequest)
    (hv : (logSections w).alone.Valid (file, .inl (.stat line)) as)
    (hend : (logSections w).alone.exec (file, .inl (.stat line)) as = (file', .inr r)) :
    lockedPart (q.env as) line file = (r, file') := by
  cases as with
  | nil => cases hend
  | cons a as =>
    cases a with
    | ftruncate ok => exact hv.1.elim
    | lseek ok => exact hv.1.elim
    | write written => exact hv.1.elim
    | stat size =>
      cases size with
      | none =>
        obtain ⟨ns, rfl, hloop⟩ := writing_alone [] hv.2 hend
        simp only [lockedPart, rotate, LogRequest.env, List.findSome?_cons, WriteAnswer.size,
          findSome_size, List.filterMap_cons, WriteAnswer.written, filterMap_written,
          Bool.true_eq_false, ↓reduceIte]
        exact hloop
      | some n =>
        have hv' : (logSections w).alone.Valid (WritePoint.step file (.stat line) (.stat (some n))) as :=
          hv.2
        have hend' : (logSections w).alone.exec (WritePoint.step file (.stat line) (.stat (some n))) as =
          (file', .inr r) := hend
        by_cases hbig : n > RL_LOG_FILE_SIZE
        · rw [WritePoint.step, if_pos hbig] at hv' hend'
          exact emptied_alone q hbig hv' hend'
        · rw [WritePoint.step, if_neg hbig] at hv' hend'
          obtain ⟨ns, rfl, hloop⟩ := writing_alone [] hv' hend'
          simp only [lockedPart, rotate, LogRequest.env, List.findSome?_cons, WriteAnswer.size,
            hbig, List.filterMap_cons, WriteAnswer.written, filterMap_written,
            Bool.true_eq_false, ↓reduceIte]
          exact hloop

theorem writeLoop_code (writes : Writes) (i : ℕ) (rest file : List Byte) :
    (writeLoop writes i rest file).1 = RL_SUCCESS ∨ (writeLoop writes i rest file).1 = RL_FAILED := by
  induction hlength : rest.length using Nat.strong_induction_on generalizing i rest file with
  | _ length ih =>
    by_cases hrest : rest = []
    · rw [hrest, writeLoop_nil]
      exact Or.inl rfl
    · cases hanswer : writes.answer i rest.length with
      | none =>
        rw [writeLoop_error hrest hanswer]
        exact Or.inr rfl
      | some n =>
        obtain ⟨hpos, _⟩ := writes.lawful i _ n (List.length_pos_iff.mpr hrest) hanswer
        have hpos' := List.length_pos_iff.mpr hrest
        rw [writeLoop_step hrest hanswer]
        exact ih _ (by rw [List.length_drop]; omega) (i + 1) (rest.drop n) _ rfl

theorem lockedPart_code (env : WriteEnv) (line file : List Byte) :
    (lockedPart env line file).1 = RL_SUCCESS ∨ (lockedPart env line file).1 = RL_FAILED := by
  simp only [lockedPart]
  split_ifs
  · exact Or.inr rfl
  · exact writeLoop_code _ _ _ _

theorem writeRlLog_locked {level : LogLevel} {message : CString} {env : WriteEnv}
    (hfd : w.logFileFd ≠ none) (hprint : env.snprintf = true)
    (hline : formatLine w env level message = line) (file : List Byte) :
    let r := lockedPart env ((printed logBufSize line).take line.length) file
    writeRlLog level message env { w with file := file } = (r.1, { w with file := r.2 }) := by
  have hline' : formatLine { w with file := file } env level message = line := hline
  simp only [writeRlLog, lockedPart, hfd, hprint, hline', Bool.true_eq_false, ↓reduceIte]
  split_ifs <;> rfl

theorem request_alone (q : LogRequest)
    (hv : (logSections w).alone.Valid (file, (logSections w).enter q) as)
    (hend : (logSections w).alone.exec (file, (logSections w).enter q) as = (file', .inr r)) :
    rlLogGeneric q.level q.message (q.env as) { w with file := file } =
      (r, { w with file := file' }) := by
  have hrefused : (logSections w).enter q = .inr RL_FAILED → r = RL_FAILED ∧ file' = file := by
    intro h
    rw [h] at hv hend
    obtain rfl := alone_ended hv
    cases hend
    exact ⟨rfl, rfl⟩
  by_cases hlevel : w.curRlLogLevel.code < q.level.code
  · obtain ⟨rfl, rfl⟩ := hrefused (by simp [logSections, LogRequest.enter, hlevel])
    simp only [rlLogGeneric, hlevel, ↓reduceIte]
  · cases hmessage : q.message with
    | none =>
      obtain ⟨rfl, rfl⟩ := hrefused (by simp [logSections, LogRequest.enter, hmessage])
      simp only [rlLogGeneric, hlevel, ↓reduceIte]
    | some buf =>
      by_cases hbuf : buf.length ≥ RL_LOG_BUF_SIZE
      · obtain ⟨rfl, rfl⟩ := hrefused (by simp [logSections, LogRequest.enter, hmessage, hbuf])
        simp only [rlLogGeneric, hlevel, hbuf, ↓reduceIte]
      · by_cases hfd : w.logFileFd = none
        · obtain ⟨rfl, rfl⟩ := hrefused (by simp [logSections, LogRequest.enter, hmessage, hfd])
          simp only [rlLogGeneric, writeRlLog, hlevel, hbuf, hfd, ↓reduceIte]
          rfl
        · cases hprint : q.snprintf with
          | false =>
            obtain ⟨rfl, rfl⟩ := hrefused (by
              simp [logSections, LogRequest.enter, hmessage, hprint])
            simp only [rlLogGeneric, writeRlLog, LogRequest.env, hlevel, hbuf, hfd, hprint, ↓reduceIte]
            rfl
          | true =>
            let line := formatLine w (q.env []) q.level (CString.ofBuffer buf)
            have henter : (logSections w).enter q =
                .inl (.stat ((printed logBufSize line).take line.length)) := by
              simp only [logSections, LogRequest.enter, hlevel, hmessage, hbuf, hfd, hprint,
                Bool.true_eq_false, ↓reduceIte, line]
            rw [henter] at hv hend
            have hlocked := section_alone q hv hend
            have hcode := lockedPart_code (q.env as) ((printed logBufSize line).take line.length) file
            rw [hlocked] at hcode
            have hline : formatLine w (q.env as) q.level (CString.ofBuffer buf) = line := rfl
            have hwrite := writeRlLog_locked hfd hprint hline file
            simp only [hlocked] at hwrite
            simp only [rlLogGeneric, hlevel, hbuf, hwrite, ↓reduceIte]
            rcases hcode with rfl | rfl
            · rfl
            · rfl

def Appended (base part file : List Byte) : Prop :=
  file = base ++ part ∨ (base.length > RL_LOG_FILE_SIZE ∧ file = part)

def UnderWay (base line file : List Byte) : WritePoint ⊕ ℤ → Prop
  | .inl (.stat l) => file = base ∧ l = line
  | .inl (.ftruncate l) => file = base ∧ l = line ∧ base.length > RL_LOG_FILE_SIZE
  | .inl (.lseek l) => file = [] ∧ l = line ∧ base.length > RL_LOG_FILE_SIZE
  | .inl (.write rest) => ∃ part, part ++ rest = line ∧ Appended base part file
  | .inr _ => ∃ part, part <+: line ∧ Appended base part file

variable {base part : List Byte}

theorem underWay_writing (hline : part ++ rest = line) (h : Appended base part file) :
    UnderWay base line file (writing rest) := by
  rw [writing]
  split_ifs with hrest
  · exact ⟨part, ⟨rest, hline⟩, h⟩
  · exact ⟨part, hline, h⟩

theorem Appended.start (base : List Byte) : Appended base [] base := Or.inl (List.append_nil _).symm

theorem UnderWay.written {next : WritePoint ⊕ ℤ} (h : UnderWay base line file next) :
    ∃ part, part <+: line ∧ Appended base part file := by
  rcases next with (l | l | l | rest) | r
  · exact ⟨[], List.nil_prefix, h.1 ▸ .start base⟩
  · exact ⟨[], List.nil_prefix, h.1 ▸ .start base⟩
  · exact ⟨[], List.nil_prefix, Or.inr ⟨h.2.2, h.1⟩⟩
  · obtain ⟨part, hline, h⟩ := h
    exact ⟨part, ⟨rest, hline⟩, h⟩
  · exact h

theorem enter_cases (w : LogWorld) (q : LogRequest) : q.enter w = .inr RL_FAILED ∨
    (q.enter w = .inl (.stat (q.line w)) ∧ (q.line w).length < logBufSize) := by
  cases hmessage : q.message with
  | none =>
    simp only [LogRequest.enter, hmessage]
    split_ifs
    · exact Or.inl rfl
    · exact Or.inl rfl
  | some buf =>
    simp only [LogRequest.enter, hmessage]
    split_ifs with hlevel hbuf hfd hprint
    · exact Or.inl rfl
    · exact Or.inl rfl
    · exact Or.inl rfl
    · exact Or.inl rfl
    · have hline : q.line w = formatLine w (q.env []) q.level (CString.ofBuffer buf) := by
        rw [LogRequest.line, lineOf, LogRequest.toMessage, hmessage]
      have hfits := formatLine_length_lt w (q.env []) q.level
        ((CString.ofBuffer_prefix buf).length_le.trans_lt (Nat.not_le.mp hbuf))
      rw [printed_take hfits, hline]
      exact Or.inr ⟨rfl, hfits⟩

theorem underWay_enter (w : LogWorld) (q : LogRequest) (base : List Byte) :
    UnderWay base (q.line w) base (q.enter w) := by
  rcases enter_cases w q with henter | ⟨henter, _⟩
  · rw [henter]
    exact ⟨[], List.nil_prefix, .start base⟩
  · rw [henter]
    exact ⟨rfl, rfl⟩

theorem UnderWay.step {p : WritePoint} {a : WriteAnswer} (h : UnderWay base line file (.inl p))
    (hready : p.Ready file a) : UnderWay base line (p.step file a).1 (p.step file a).2 := by
  cases p with
  | stat l =>
    obtain ⟨rfl, rfl⟩ := h
    cases a with
    | stat size =>
      cases size with
      | none => exact underWay_writing rfl (.start file)
      | some n =>
        have hn : n = file.length := hready n rfl
        rw [WritePoint.step]
        split_ifs with hbig
        · exact ⟨rfl, rfl, hn ▸ hbig⟩
        · exact underWay_writing rfl (.start file)
    | _ => exact hready.elim
  | ftruncate l =>
    obtain ⟨rfl, rfl, hbig⟩ := h
    cases a with
    | ftruncate ok =>
      cases ok with
      | false => exact ⟨[], List.nil_prefix, .start file⟩
      | true => exact ⟨rfl, rfl, hbig⟩
    | _ => exact hready.elim
  | lseek l =>
    obtain ⟨rfl, rfl, hbig⟩ := h
    have hempty : Appended base [] [] := Or.inr ⟨hbig, rfl⟩
    cases a with
    | lseek ok =>
      cases ok with
      | false => exact ⟨[], List.nil_prefix, hempty⟩
      | true => exact underWay_writing rfl hempty
    | _ => exact hready.elim
  | write rest =>
    obtain ⟨part, hline, h⟩ := h
    cases a with
    | write written =>
      cases written with
      | none => exact ⟨part, ⟨rest, hline⟩, h⟩
      | some n =>
        have hline' : part ++ rest.take n ++ rest.drop n = line := by
          rw [List.append_assoc, List.take_append_drop, hline]
        apply underWay_writing hline'
        rcases h with rfl | ⟨hbig, rfl⟩
        · exact Or.inl (List.append_assoc ..)
        · exact Or.inr ⟨hbig, rfl⟩
    | _ => exact hready.elim

theorem underWay_alone (w : LogWorld) (q : LogRequest) {next : WritePoint ⊕ ℤ}
    (hv : (logSections w).alone.Valid (base, (logSections w).enter q) as)
    (hexec : (logSections w).alone.exec (base, (logSections w).enter q) as = (file, next)) :
    UnderWay base (q.line w) file next := by
  have hsteps : ∀ c a, UnderWay base (q.line w) c.1 c.2 → (logSections w).alone.enabled c a →
      UnderWay base (q.line w) ((logSections w).alone.next c a).1
        ((logSections w).alone.next c a).2 := by
    rintro ⟨file, p | r⟩ a h henabled
    · exact h.step henabled
    · exact henabled.elim
  have h := Machine.exec_invariant (P := fun c => UnderWay base (q.line w) c.1 c.2) hsteps
    (underWay_enter w q base) hv
  rwa [hexec] at h

end Alone

section Threads

variable {ι : Type*} [DecidableEq ι]

def calls (visits : List (Sections.Visit ι LogRequest WriteAnswer ℤ)) : List LogCall :=
  (visits.map fun v => LogCall.log (v.request.toMessage v.answers)).reverse

abbrev LogPool (ι : Type*) :=
  Sections.Guarded ι (List Byte) LogRequest WriteAnswer ℤ ×
    (ι → Sections.Phase LogRequest WritePoint WriteAnswer ℤ)

/-- The sections that have ended are calls of the logger one after the other, in the order of the
lock. Only the owner of the lock is under way, with the beginning of its line written. -/
structure LineByLine (w : LogWorld) (c : LogPool ι) : Prop where
  sequential : logger.exec w (calls c.1.visits) = { w with file := c.1.base }
  replies : ∀ pre v post, c.1.visits = pre ++ v :: post → v.result =
    (rlLogGeneric v.request.level v.request.message (v.request.env v.answers)
      (logger.exec w (calls post))).1
  free : c.1.owner = none → c.1.value = c.1.base
  held : ∀ t, c.1.owner = some t → ∃ q as next, (c.2 t).Open q as next ∧
    ∃ part, part <+: q.line w ∧ Appended c.1.base part c.1.value
  exclusive : ∀ t q as next, (c.2 t).Open q as next → c.1.owner = some t

omit [DecidableEq ι] in
theorem calls_cons (v : Sections.Visit ι LogRequest WriteAnswer ℤ)
    (visits : List (Sections.Visit ι LogRequest WriteAnswer ℤ)) :
    calls (v :: visits) = calls visits ++ [.log (v.request.toMessage v.answers)] := by
  rw [calls, List.map_cons, List.reverse_cons, calls]

omit [DecidableEq ι] in
theorem serial_calls {w : LogWorld} {visits : List (Sections.Visit ι LogRequest WriteAnswer ℤ)}
    {s : List Byte} (h : (logSections w).Serial w.file visits s) :
    logger.exec w (calls visits) = { w with file := s } ∧
      ∀ pre v post, visits = pre ++ v :: post → v.result =
        (rlLogGeneric v.request.level v.request.message (v.request.env v.answers)
          (logger.exec w (calls post))).1 := by
  induction h with
  | start =>
    refine ⟨rfl, fun pre v post h => ?_⟩
    simp at h
  | @visit visits v s s' h hv hend ih =>
    obtain ⟨hexec, hreplies⟩ := ih
    have hcall := request_alone v.request hv hend
    rw [← hexec] at hcall
    constructor
    · rw [calls_cons, Machine.exec_append]
      change rlLog _ _ _ _ = _
      rw [rlLog_eq]
      exact congrArg Prod.snd hcall
    · intro pre v' post hsplit
      cases pre with
      | nil =>
        rw [List.nil_append, List.cons.injEq] at hsplit
        obtain ⟨rfl, rfl⟩ := hsplit
        rw [hcall]
      | cons u pre =>
        rw [List.cons_append, List.cons.injEq] at hsplit
        exact hreplies pre v' post hsplit.2

/-- However many threads log at once, the file is that of a sequential run. -/
theorem log_line_by_line (w : LogWorld)
    {run : List (ι × Sections.Action LogRequest WriteAnswer)}
    (hv : (logSections w).code.pool.Valid (Sections.startWith w.file) run) :
    LineByLine w ((logSections w).code.pool.exec (Sections.startWith w.file) run) := by
  obtain ⟨hg, hp⟩ := Sections.serializes hv
  obtain ⟨hsequential, hreplies⟩ := serial_calls hg.1
  refine ⟨hsequential, hreplies, hg.2, fun t ht => ?_, fun t q as next hopen => ?_⟩
  · obtain ⟨q, as, next, hopen, hvalid, hexec⟩ := (hp t).of_owner ht
    exact ⟨q, as, next, hopen, UnderWay.written (underWay_alone w q hvalid hexec)⟩
  · exact (hp t).owner hopen

def greetingRequest : LogRequest :=
  ⟨.info, some (text "hello"), ⟨⟨8, by decide⟩, ⟨30, by decide⟩, ⟨0, by decide⟩⟩, 7#32, true⟩

def twoGreetings : List (Bool × Sections.Action LogRequest WriteAnswer) :=
  [(false, .call greetingRequest), (true, .call greetingRequest), (false, .lock),
    (false, .step (.stat (some 3))), (false, .step (.write (some 2)))]

theorem log_line_by_line_greetings : LineByLine listening
    ((logSections listening).code.pool.exec (Sections.startWith listening.file) twoGreetings) := by
  apply log_line_by_line
  refine ⟨trivial, trivial, rfl, ?_, ?_, trivial⟩
  · rintro n ⟨rfl⟩
    rfl
  · rintro n ⟨rfl⟩
    decide

def Sized (bound : ℕ) (file : List Byte) : WritePoint ⊕ ℤ → Prop
  | .inl (.stat line) => file.length < bound ∧ line.length < logBufSize
  | .inl (.ftruncate line) => file.length < bound ∧ line.length < logBufSize
  | .inl (.lseek line) => file = [] ∧ line.length < logBufSize
  | .inl (.write rest) => file.length + rest.length < bound
  | .inr _ => file.length < bound

def logFileBound : ℕ := RL_LOG_FILE_SIZE + logBufSize

theorem sized_writing {file rest : List Byte} (h : file.length + rest.length < logFileBound) :
    Sized logFileBound file (writing rest) := by
  rw [writing]
  split_ifs with hrest
  · rw [hrest] at h
    exact h
  · exact h

theorem sized_enter (w : LogWorld) (q : LogRequest) {file : List Byte}
    (h : file.length < logFileBound) : Sized logFileBound file (q.enter w) := by
  rcases enter_cases w q with henter | ⟨henter, hline⟩
  · rw [henter]
    exact h
  · rw [henter]
    exact ⟨h, hline⟩

theorem Sized.step {file : List Byte} {p : WritePoint} {a : WriteAnswer}
    (h : Sized logFileBound file (.inl p)) (hready : p.Ready file a) (hstat : a ≠ .stat none) :
    Sized logFileBound (p.step file a).1 (p.step file a).2 := by
  cases p with
  | stat line =>
    obtain ⟨hfile, hline⟩ := h
    cases a with
    | stat size =>
      cases size with
      | none => exact absurd rfl hstat
      | some n =>
        have hn : n = file.length := hready n rfl
        rw [WritePoint.step]
        split_ifs with hbig
        · exact ⟨hfile, hline⟩
        · have hroom : file.length + line.length < logFileBound := by
            rw [logFileBound]
            omega
          exact sized_writing hroom
    | _ => exact hready.elim
  | ftruncate line =>
    obtain ⟨hfile, hline⟩ := h
    cases a with
    | ftruncate ok =>
      cases ok with
      | false => exact hfile
      | true => exact ⟨rfl, hline⟩
    | _ => exact hready.elim
  | lseek line =>
    obtain ⟨rfl, hline⟩ := h
    have hroom : ([] : List Byte).length + line.length < logFileBound := by
      rw [List.length_nil, logFileBound]
      omega
    cases a with
    | lseek ok =>
      cases ok with
      | false => exact Nat.lt_of_le_of_lt (Nat.le_add_right _ _) hroom
      | true => exact sized_writing hroom
    | _ => exact hready.elim
  | write rest =>
    have hrest : file.length + rest.length < logFileBound := h
    cases a with
    | write written =>
      cases written with
      | none => exact Nat.lt_of_le_of_lt (Nat.le_add_right _ _) hrest
      | some n =>
        have hn : 0 < n ∧ n ≤ rest.length := hready n rfl
        have hroom : (file ++ rest.take n).length + (rest.drop n).length < logFileBound := by
          rw [List.length_append, List.length_take, List.length_drop]
          omega
        exact sized_writing hroom
    | _ => exact hready.elim

theorem Sized.value {bound : ℕ} {file : List Byte} {next : WritePoint ⊕ ℤ}
    (h : Sized bound file next) (hbound : 0 < bound) : file.length < bound := by
  rcases next with (line | line | line | rest) | r
  · exact h.1
  · exact h.1
  · rw [h.1]
    exact hbound
  · exact Nat.lt_of_le_of_lt (Nat.le_add_right _ _) h
  · exact h

theorem log_size_bounded (w : LogWorld) (hfile : w.file.length < logFileBound)
    {run : List (ι × Sections.Action LogRequest WriteAnswer)}
    (hv : ((logSections w).limit fun a => a ≠ .stat none).code.pool.Valid
      (Sections.startWith w.file) run) :
    (((logSections w).limit fun a => a ≠ .stat none).code.pool.exec
      (Sections.startWith w.file) run).1.value.length < logFileBound := by
  apply Sections.value_invariant (I := fun file => file.length < logFileBound)
    (J := fun c => Sized logFileBound c.1 c.2) _ _ _ hfile hv
  · exact fun file q h => sized_enter w q h
  · rintro ⟨file, p | r⟩ a h henabled
    · exact h.step henabled.1 henabled.2
    · exact henabled.elim
  · exact fun c h => h.value (by decide)

theorem log_size_bounded_greetings :
    (((logSections listening).limit fun a => a ≠ .stat none).code.pool.exec
      (Sections.startWith listening.file) twoGreetings).1.value.length < logFileBound := by
  apply log_size_bounded listening (by decide)
  refine ⟨trivial, trivial, rfl, ⟨?_, by decide⟩, ⟨?_, by decide⟩, trivial⟩
  · rintro n ⟨rfl⟩
    rfl
  · rintro n ⟨rfl⟩
    decide

end Threads

end RlLibrary.Log
