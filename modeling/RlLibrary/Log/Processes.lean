import RlLibrary.Foundation.GroupedSections
import RlLibrary.Log.Interleaving

/-!
Several processes that log to the one file `/tmp/Messages`. Each has threads, a level, a name and an
`rl_log_mutex` of its own; its descriptor is in append mode, so that `write` goes to the end of the file
wherever the others have brought it.
-/

namespace RlLibrary.Log

open Foundation

variable {π ι : Type*}

abbrev LogAction := Sections.Action LogRequest WriteAnswer

abbrev LogPhase := Sections.Phase LogRequest WritePoint WriteAnswer ℤ

abbrev LogProcesses (π ι : Type*) := Locked π ι (List Byte) × (ι → LogPhase)

def logProcesses [DecidableEq π] (w : π → LogWorld) (process : ι → π) :
    ThreadCode ι (Locked π ι (List Byte)) LogPhase LogAction :=
  Sections.grouped (fun k => logSections (w k)) process

theorem one_process [DecidableEq ι] (w : LogWorld) (file : List Byte) (run : List (ι × LogAction)) :
    ((logProcesses (fun _ : Unit => w) fun _ => ()).pool.Valid (Sections.groupsAt file) run ↔
        (logSections w).code.pool.Valid (Sections.startWith file) run) ∧
      (logProcesses (fun _ : Unit => w) fun _ => ()).pool.exec (Sections.groupsAt file) run =
        Sections.asGroup ((logSections w).code.pool.exec (Sections.startWith file) run) :=
  Sections.one_group file run

def WritePoint.bytes : WritePoint → List Byte
  | .stat line => line
  | .ftruncate line => line
  | .lseek line => line
  | .write rest => rest

def WritePoint.pending : WritePoint ⊕ ℤ → ℕ
  | .inl (.lseek line) => line.length
  | .inl (.write rest) => rest.length
  | _ => 0

inductive WriteMoves (file : List Byte) :
    WritePoint → WriteAnswer → List Byte → WritePoint ⊕ ℤ → Prop where
  | large {line : List Byte} {n : ℕ} : WriteMoves file (.stat line) (.stat (some n)) file (.inl (.ftruncate line))
  | small {line : List Byte} (h : file.length ≤ RL_LOG_FILE_SIZE) :
      WriteMoves file (.stat line) (.stat (some file.length)) file (writing line)
  | unknown {line : List Byte} : WriteMoves file (.stat line) (.stat none) file (writing line)
  | empties {line : List Byte} : WriteMoves file (.ftruncate line) (.ftruncate true) [] (.inl (.lseek line))
  | seeks {line : List Byte} : WriteMoves file (.lseek line) (.lseek true) file (writing line)
  | writes {rest : List Byte} {n : ℕ} (hn : 0 < n ∧ n ≤ rest.length) :
      WriteMoves file (.write rest) (.write (some n)) (file ++ rest.take n) (writing (rest.drop n))
  | fails {p : WritePoint} {a : WriteAnswer} (h : a ≠ .ftruncate true) : WriteMoves file p a file (.inr RL_FAILED)

section Steps

variable {file file' line rest : List Byte} {p p' : WritePoint} {a : WriteAnswer} {next : WritePoint ⊕ ℤ} {r : ℤ}

theorem write_moves (h : p.Ready file a) : WriteMoves file p a (p.step file a).1 (p.step file a).2 := by
  cases p with
  | stat line =>
    cases a with
    | stat size =>
      cases size with
      | none => exact .unknown
      | some n =>
        have hn : n = file.length := h n rfl
        rw [WritePoint.step]
        split_ifs with hbig
        · exact .large
        · rw [hn] at hbig ⊢
          exact .small (Nat.not_lt.mp hbig)
    | _ => exact h.elim
  | ftruncate line =>
    cases a with
    | ftruncate ok =>
      cases ok with
      | false => exact .fails (by simp)
      | true => exact .empties
    | _ => exact h.elim
  | lseek line =>
    cases a with
    | lseek ok =>
      cases ok with
      | false => exact .fails (by simp)
      | true => exact .seeks
    | _ => exact h.elim
  | write rest =>
    cases a with
    | write written =>
      cases written with
      | none => exact .fails (by simp)
      | some n => exact .writes (h n rfl)
    | _ => exact h.elim

theorem writing_pending (rest : List Byte) : WritePoint.pending (writing rest) = rest.length := by
  rw [writing]
  split_ifs with hrest
  · rw [hrest]
    rfl
  · rfl

theorem writing_inl (h : writing rest = .inl p) : p = .write rest := by
  rw [writing] at h
  split_ifs at h
  exact (Sum.inl.inj h).symm

theorem WriteMoves.pending (h : WriteMoves file p a file' next) (hstat : a ≠ .stat none) :
    file'.length ≤ RL_LOG_FILE_SIZE ∨
      file'.length + WritePoint.pending next ≤ file.length + WritePoint.pending (.inl p) := by
  cases h with
  | large => exact Or.inr le_rfl
  | small h => exact Or.inl h
  | unknown => exact absurd rfl hstat
  | empties => exact Or.inl (Nat.zero_le _)
  | seeks =>
    rw [writing_pending]
    exact Or.inr le_rfl
  | writes hn =>
    rw [writing_pending, List.length_append, List.length_take, List.length_drop, WritePoint.pending]
    omega
  | fails h => exact Or.inr (Nat.add_le_add_left (Nat.zero_le _) _)

theorem WriteMoves.bytes_le (h : WriteMoves file p a file' next) (hnext : next = .inl p') :
    p'.bytes.length ≤ p.bytes.length := by
  cases h with
  | large =>
    cases hnext
    exact le_rfl
  | empties =>
    cases hnext
    exact le_rfl
  | writes hn =>
    rw [writing_inl hnext, WritePoint.bytes, WritePoint.bytes, List.length_drop]
    exact Nat.sub_le _ _
  | fails h => cases hnext
  | _ =>
    rw [writing_inl hnext]
    exact le_rfl

theorem pending_inside (hready : p.Ready file a) (hstep : p.step file a = (file', next)) (hstat : a ≠ .stat none) :
    file'.length ≤ RL_LOG_FILE_SIZE ∨
      file'.length + WritePoint.pending next ≤ file.length + WritePoint.pending (.inl p) := by
  have hmoves := write_moves hready
  rw [hstep] at hmoves
  exact hmoves.pending hstat

end Steps

section Size

variable [DecidableEq π] {w : π → LogWorld} {process : ι → π} {t : ι} {g g' : Locked π ι (List Byte)}
  {phase phase' : LogPhase} {action : LogAction}

def pendingOf : LogPhase → ℕ
  | .inside _ _ p => WritePoint.pending (.inl p)
  | _ => 0

/-- The line fits into `log_buf`, and a thread that waits for the lock has still to ask for the size. -/
def LineShort : LogPhase → Prop
  | .idle _ => True
  | .waiting _ p => p.bytes.length < logBufSize ∧ WritePoint.pending (.inl p) = 0
  | .inside _ _ p => p.bytes.length < logBufSize
  | .leaving _ _ _ => True

abbrev LogMoves (w : π → LogWorld) (process : ι → π) (t : ι) :=
  Sections.GroupMoves (logSections (w (process t))) (process t) t

theorem lineShort_move (h : LogMoves w process t g phase action g' phase') (hp : LineShort phase) :
    LineShort phase' := by
  cases h with
  | @asks last q p hq =>
    rcases enter_cases (w (process t)) q with henter | ⟨henter, hline⟩
    · cases henter.symm.trans hq
    · cases henter.symm.trans hq
      exact ⟨hline, rfl⟩
  | refused hq => trivial
  | locks hfree => exact hp.1
  | goesOn hready hstep =>
    have hmoves := write_moves hready
    have hbytes := hmoves.bytes_le (congrArg Prod.snd hstep)
    exact hbytes.trans_lt hp
  | ends hready hstep => trivial
  | unlocks => trivial

theorem pendingOf_le (h : LineShort phase) : pendingOf phase ≤ logBufSize - 1 := by
  cases phase with
  | inside q as p =>
    have hle : pendingOf (.inside q as p) ≤ p.bytes.length := by
      cases p with
      | stat line => exact Nat.zero_le _
      | ftruncate line => exact Nat.zero_le _
      | lseek line => exact le_rfl
      | write rest => exact le_rfl
    exact hle.trans (Nat.le_sub_one_of_lt h)
  | _ => exact Nat.zero_le _

theorem pending_move (h : LogMoves w process t g phase action g' phase') (hp : LineShort phase)
    (hstat : action ≠ .step (.stat none)) : g'.value.length ≤ RL_LOG_FILE_SIZE ∨
      g'.value.length + pendingOf phase' ≤ g.value.length + pendingOf phase := by
  cases h with
  | locks hfree =>
    right
    change _ + WritePoint.pending _ ≤ _
    rw [hp.2]
    exact le_rfl
  | goesOn hready hstep => exact pending_inside hready hstep fun ha => hstat (by rw [ha])
  | ends hready hstep => exact pending_inside hready hstep fun ha => hstat (by rw [ha])
  | _ => exact Or.inr le_rfl

end Size

section Bound

variable [DecidableEq π] [DecidableEq ι] [Fintype π] {w : π → LogWorld} {process : ι → π}
  {c : LogProcesses π ι} {i : ι × LogAction} {file : List Byte} {run : List (ι × LogAction)}

def processesBound (π : Type*) [Fintype π] : ℕ :=
  RL_LOG_FILE_SIZE + Fintype.card π * (logBufSize - 1)

structure Bounded (process : ι → π) (c : LogProcesses π ι) : Prop where
  locks : Sections.LocksHeld process c
  short : ∀ t, LineShort (c.2 t)
  size : c.1.value.length + ∑ k, Sections.load pendingOf c k ≤ processesBound π

abbrev statingProcesses (w : π → LogWorld) (process : ι → π) :
    Machine (LogProcesses π ι) (ι × LogAction) :=
  (logProcesses w process).pool.restrict fun _ i => i.2 ≠ .step (.stat none)

omit [DecidableEq π] [DecidableEq ι] in
theorem sum_load_le (h : ∀ t, LineShort (c.2 t)) :
    ∑ k, Sections.load pendingOf c k ≤ Fintype.card π * (logBufSize - 1) := by
  have hload : ∀ k ∈ Finset.univ, Sections.load pendingOf c k ≤ logBufSize - 1 := by
    intro k _
    rw [Sections.load]
    cases c.1.owner k with
    | none => exact Nat.zero_le _
    | some t => exact pendingOf_le (h t)
  have hsum := Finset.sum_le_card_nsmul Finset.univ _ _ hload
  rw [Finset.card_univ] at hsum
  exact hsum

theorem Bounded.next (h : Bounded process c) (he : (statingProcesses w process).enabled c i) :
    Bounded process ((statingProcesses w process).next c i) := by
  obtain ⟨henabled, hstat⟩ := he
  let after := (logProcesses w process).step i.1 c.1 (c.2 i.1) i.2
  have hmove : LogMoves w process i.1 c.1 (c.2 i.1) i.2 after.1 after.2 :=
    Sections.grouped_moves (S := fun k => logSections (w k)) henabled
  have hshort : ∀ t, LineShort (Function.update c.2 i.1 after.2 t) := by
    intro t
    by_cases ht : t = i.1
    · subst ht
      rw [Function.update_self]
      exact lineShort_move hmove (h.short i.1)
    · rw [Function.update_of_ne ht]
      exact h.short t
  have hlocks : Sections.LocksHeld process (after.1, Function.update c.2 i.1 after.2) :=
    h.locks.next henabled
  have hsize : after.1.value.length +
      ∑ k, Sections.load pendingOf (after.1, Function.update c.2 i.1 after.2) k ≤ processesBound π := by
    rcases pending_move hmove (h.short i.1) hstat with hsmall | hless
    · exact Nat.add_le_add hsmall (sum_load_le hshort)
    · have hsum : (∑ k, Sections.load pendingOf (after.1, Function.update c.2 i.1 after.2) k) +
          pendingOf (c.2 i.1) = (∑ k, Sections.load pendingOf c k) + pendingOf after.2 :=
        Sections.sum_load_move (S := fun k => logSections (w k)) (fun _ => rfl) (fun _ _ => rfl) h.locks
          hmove
      have hbefore := h.size
      omega
  exact ⟨hlocks, hshort, hsize⟩

theorem processes_log_bounded (hfile : file.length ≤ processesBound π)
    (hv : (statingProcesses w process).Valid (Sections.groupsAt file) run) :
    ∀ pre, pre <+: run →
      ((logProcesses w process).pool.exec (Sections.groupsAt file) pre).1.value.length ≤
        processesBound π := by
  intro pre hpre
  have hstart : Bounded process (Sections.groupsAt file) :=
    ⟨Sections.locksHeld_groupsAt file, fun _ => trivial, by simpa [Sections.load, Sections.groupsAt] using hfile⟩
  have hbounded : Bounded process ((statingProcesses w process).exec (Sections.groupsAt file) pre) :=
    Machine.exec_invariant (fun _ _ h he => h.next he) hstart (Machine.valid_of_prefix _ hpre hv)
  exact (Nat.le_add_right _ _).trans hbounded.size

def twoProcesses : List (Bool × LogAction) :=
  [(false, .call greetingRequest), (true, .call greetingRequest), (false, .lock), (true, .lock),
    (false, .step (.stat (some RL_LOG_FILE_SIZE))), (true, .step (.stat (some RL_LOG_FILE_SIZE))),
    (false, .step (.write (some 2))), (true, .step (.write (some 3)))]

theorem processes_log_bounded_two :
    ((logProcesses (fun _ => listening) id).pool.exec
      (Sections.groupsAt (List.replicate RL_LOG_FILE_SIZE 0)) twoProcesses).1.value.length ≤
        processesBound Bool := by
  have hlength : (List.replicate RL_LOG_FILE_SIZE (0 : Byte)).length = RL_LOG_FILE_SIZE := List.length_replicate
  have hfile : (List.replicate RL_LOG_FILE_SIZE (0 : Byte)).length ≤ processesBound Bool := by
    rw [hlength]
    exact Nat.le_add_right _ _
  generalize List.replicate RL_LOG_FILE_SIZE (0 : Byte) = file at hlength hfile
  apply processes_log_bounded hfile _ _ List.prefix_rfl
  refine ⟨⟨trivial, by simp⟩, ⟨trivial, by simp⟩, ⟨rfl, by simp⟩, ⟨rfl, by simp⟩, ⟨?_, by simp⟩,
    ⟨?_, by simp⟩, ⟨?_, by simp⟩, ⟨?_, by simp⟩, trivial⟩
  · rintro n ⟨rfl⟩
    exact hlength.symm
  · rintro n ⟨rfl⟩
    exact hlength.symm
  · rintro n ⟨rfl⟩
    decide
  · rintro n ⟨rfl⟩
    decide

end Bound

section Journal

/-- What becomes of the file: a thread adds the line of its request, or all is emptied. -/
inductive Entry (ι : Type*) where
  | line (thread : ι) (request : LogRequest)
  | emptied

def journal (w : π → LogWorld) (process : ι → π) : Machine (List Byte) (Entry ι) where
  enabled _ _ := True
  next file
    | .line t q => file ++ q.line (w (process t))
    | .emptied => []

def entry (t : ι) (q : LogRequest) : WriteAnswer → WritePoint ⊕ ℤ → Option (Entry ι)
  | .ftruncate true, _ => some .emptied
  | _, .inr r => if r = RL_SUCCESS then some (.line t q) else none
  | _, .inl _ => none

def entryAt (t : ι) (file : List Byte) (phase : LogPhase) (action : LogAction) : Option (Entry ι) :=
  match phase, action with
  | .inside q _ p, .step a => entry t q a (p.step file a).2
  | _, _ => none

def entryOf (c : LogProcesses π ι) (i : ι × LogAction) : Option (Entry ι) :=
  entryAt i.1 c.1.value (c.2 i.1) i.2

def Entry.requestOf [DecidableEq ι] (t : ι) : Entry ι → Option LogRequest
  | .line u q => if u = t then some q else none
  | .emptied => none

/-- The request that the thread is now told is done. -/
def doneAt : LogPhase → LogAction → Option LogRequest
  | .leaving q _ r, .unlock => if r = RL_SUCCESS then some q else none
  | _, _ => none

def doneOf [DecidableEq ι] (t : ι) (c : LogProcesses π ι) (i : ι × LogAction) : Option LogRequest :=
  if i.1 = t then doneAt (c.2 i.1) i.2 else none

/-- The request is done, but the thread has still to give its lock back. -/
def unlocking : LogPhase → List LogRequest
  | .leaving q _ r => if r = RL_SUCCESS then [q] else []
  | _ => []

def Whole : LogPhase → LogAction → Prop
  | .inside _ _ (.write rest), .step (.write (some n)) => n = rest.length
  | _, _ => True

def Carries (w : LogWorld) : LogPhase → Prop
  | .waiting q p => p.bytes = q.line w
  | .inside q _ p => p.bytes = q.line w
  | _ => True

inductive LineStep (file line : List Byte) (a : WriteAnswer) : List Byte → WritePoint ⊕ ℤ → Prop where
  | empties {p : WritePoint} (ha : a = .ftruncate true) (hp : p.bytes = line) : LineStep file line a [] (.inl p)
  | done (ha : a ≠ .ftruncate true) : LineStep file line a (file ++ line) (.inr RL_SUCCESS)
  | fails (ha : a ≠ .ftruncate true) : LineStep file line a file (.inr RL_FAILED)
  | goesOn {p : WritePoint} (ha : a ≠ .ftruncate true) (hp : p.bytes = line) : LineStep file line a file (.inl p)

section Steps

variable {file file' line : List Byte} {p : WritePoint} {a : WriteAnswer} {next : WritePoint ⊕ ℤ}

theorem lineStep_writing (ha : a ≠ .ftruncate true) : LineStep file line a file (writing line) := by
  rw [writing]
  split_ifs with hline
  · have hdone : LineStep file line a (file ++ line) (.inr RL_SUCCESS) := .done ha
    rw [hline, List.append_nil] at hdone
    rw [hline]
    exact hdone
  · exact .goesOn ha rfl

theorem WriteMoves.lineStep (h : WriteMoves file p a file' next)
    (hwhole : ∀ rest n, p = .write rest → a = .write (some n) → n = rest.length) :
    LineStep file p.bytes a file' next := by
  cases h with
  | large => exact .goesOn (by simp) rfl
  | small h => exact lineStep_writing (by simp)
  | unknown => exact lineStep_writing (by simp)
  | empties => exact .empties rfl rfl
  | seeks => exact lineStep_writing (by simp)
  | @writes rest n hn =>
    obtain rfl := hwhole rest n rfl rfl
    rw [List.take_length, List.drop_length, writing, if_pos rfl]
    exact .done (by simp)
  | fails h => exact .fails h

theorem entry_inl {t : ι} {q : LogRequest} (ha : a ≠ .ftruncate true) :
    entry t q a (.inl p) = none := by
  cases a with
  | ftruncate ok =>
    cases ok with
    | false => rfl
    | true => exact absurd rfl ha
  | _ => rfl

theorem entry_inr {t : ι} {q : LogRequest} (ha : a ≠ .ftruncate true) (r : ℤ) :
    entry t q a (.inr r) = if r = RL_SUCCESS then some (.line t q) else none := by
  cases a with
  | ftruncate ok =>
    cases ok with
    | false => rfl
    | true => exact absurd rfl ha
  | _ => rfl

theorem inside_lineStep {q : LogRequest} {as : List WriteAnswer} (hready : p.Ready file a)
    (hstep : p.step file a = (file', next)) (hwhole : Whole (.inside q as p) (.step a)) :
    LineStep file p.bytes a file' next := by
  have hmoves := write_moves hready
  rw [hstep] at hmoves
  apply hmoves.lineStep
  rintro rest n rfl rfl
  exact hwhole

theorem entryAt_inside {t : ι} {q : LogRequest} {as : List WriteAnswer} (hstep : p.step file a = (file', next)) :
    entryAt t file (.inside q as p) (.step a) = entry t q a next := by
  rw [entryAt, hstep]

end Steps

section Threads

variable [DecidableEq π] {w : π → LogWorld} {process : ι → π} {t : ι} {g g' : Locked π ι (List Byte)}
  {phase phase' : LogPhase} {action : LogAction}

theorem carries_move (h : LogMoves w process t g phase action g' phase') (hwhole : Whole phase action)
    (hp : Carries (w (process t)) phase) : Carries (w (process t)) phase' := by
  cases h with
  | @asks last q p hq =>
    rcases enter_cases (w (process t)) q with henter | ⟨henter, _⟩
    · cases henter.symm.trans hq
    · cases henter.symm.trans hq
      rfl
  | refused hq => trivial
  | locks hfree => exact hp
  | @goesOn q as a p p' s hready hstep =>
    have hline := inside_lineStep hready hstep hwhole
    cases hline with
    | empties ha hp' => exact hp'.trans hp
    | goesOn ha hp' => exact hp'.trans hp
  | ends hready hstep => trivial
  | unlocks => trivial

theorem entry_move (h : LogMoves w process t g phase action g' phase') (hwhole : Whole phase action)
    (hp : Carries (w (process t)) phase) :
    g'.value = (entryAt t g.value phase action).elim g.value ((journal w process).next g.value) := by
  cases h with
  | asks hq => rfl
  | refused hq => rfl
  | locks hfree => rfl
  | @goesOn q as a p p' s hready hstep =>
    have hline := inside_lineStep hready hstep hwhole
    rw [entryAt_inside hstep]
    cases hline with
    | empties ha hp' =>
      subst ha
      rfl
    | goesOn ha hp' =>
      rw [entry_inl ha]
      rfl
  | @ends q as a p r s hready hstep =>
    have hline := inside_lineStep hready hstep hwhole
    rw [entryAt_inside hstep]
    cases hline with
    | done ha =>
      rw [entry_inr ha, if_pos rfl]
      exact congrArg (g.value ++ ·) hp
    | fails ha =>
      rw [entry_inr ha]
      rfl
  | unlocks => rfl

theorem order_move [DecidableEq ι] (h : LogMoves w process t g phase action g' phase')
    (hwhole : Whole phase action) :
    unlocking phase ++ ((entryAt t g.value phase action).bind (Entry.requestOf t)).toList =
      (doneAt phase action).toList ++ unlocking phase' := by
  cases h with
  | asks hq => rfl
  | refused hq => rfl
  | locks hfree => rfl
  | @goesOn q as a p p' s hready hstep =>
    have hline := inside_lineStep hready hstep hwhole
    rw [entryAt_inside hstep]
    cases hline with
    | empties ha hp' =>
      subst ha
      rfl
    | goesOn ha hp' =>
      rw [entry_inl ha]
      rfl
  | @ends q as a p r s hready hstep =>
    have hline := inside_lineStep hready hstep hwhole
    rw [entryAt_inside hstep]
    cases hline with
    | done ha =>
      rw [entry_inr ha]
      simp [unlocking, doneAt, Entry.requestOf]
    | fails ha =>
      rw [entry_inr ha]
      rfl
  | @unlocks q as r =>
    by_cases hr : r = RL_SUCCESS
    · simp [unlocking, doneAt, entryAt, hr]
    · simp [unlocking, doneAt, entryAt, hr]

theorem requestOf_entry [DecidableEq ι] {u : ι} (hne : u ≠ t) (q : LogRequest) (a : WriteAnswer)
    (next : WritePoint ⊕ ℤ) : (entry u q a next).bind (Entry.requestOf t) = none := by
  by_cases ha : a = .ftruncate true
  · subst ha
    rfl
  · cases next with
    | inl p =>
      rw [entry_inl ha]
      rfl
    | inr r =>
      rw [entry_inr ha]
      split_ifs
      · exact if_neg hne
      · rfl

theorem entryAt_other [DecidableEq ι] {u : ι} (hne : u ≠ t) {file : List Byte} :
    (entryAt u file phase action).bind (Entry.requestOf t) = none := by
  cases phase with
  | inside q as p =>
    cases action with
    | step a => exact requestOf_entry hne q a _
    | _ => rfl
  | _ => rfl

end Threads

section Runs

variable [DecidableEq π] [DecidableEq ι] {w : π → LogWorld} {process : ι → π} {c : LogProcesses π ι}
  {i : ι × LogAction} {file : List Byte} {run : List (ι × LogAction)}

abbrev wholeProcesses (w : π → LogWorld) (process : ι → π) : Machine (LogProcesses π ι) (ι × LogAction) :=
  (logProcesses w process).pool.restrict fun c i => Whole (c.2 i.1) i.2

theorem whole_moves (he : (wholeProcesses w process).enabled c i) :
    LogMoves w process i.1 c.1 (c.2 i.1) i.2 ((wholeProcesses w process).next c i).1
      ((logProcesses w process).step i.1 c.1 (c.2 i.1) i.2).2 :=
  Sections.grouped_moves (S := fun k => logSections (w k)) he.1

theorem carries_next (h : ∀ t, Carries (w (process t)) (c.2 t))
    (he : (wholeProcesses w process).enabled c i) (t : ι) :
    Carries (w (process t)) (((wholeProcesses w process).next c i).2 t) := by
  change Carries (w (process t)) (Function.update c.2 i.1 _ t)
  by_cases ht : t = i.1
  · subst ht
    rw [Function.update_self]
    exact carries_move (whole_moves he) he.2 (h i.1)
  · rw [Function.update_of_ne ht]
    exact h t

theorem unlocking_next (he : (wholeProcesses w process).enabled c i) (t : ι) :
    unlocking (c.2 t) ++ ((entryOf c i).bind (Entry.requestOf t)).toList =
      (doneOf t c i).toList ++ unlocking (((wholeProcesses w process).next c i).2 t) := by
  change _ = _ ++ unlocking (Function.update c.2 i.1 _ t)
  by_cases ht : t = i.1
  · subst ht
    rw [Function.update_self, doneOf, if_pos rfl]
    exact order_move (whole_moves he) he.2
  · have hnone : (entryOf c i).bind (Entry.requestOf t) = none := entryAt_other (Ne.symm ht)
    rw [Function.update_of_ne ht, doneOf, if_neg (Ne.symm ht), hnone]
    exact List.append_nil _

theorem value_next (h : ∀ t, Carries (w (process t)) (c.2 t))
    (he : (wholeProcesses w process).enabled c i) : ((wholeProcesses w process).next c i).1.value =
      (entryOf c i).elim c.1.value ((journal w process).next c.1.value) :=
  entry_move (whole_moves he) he.2 (h i.1)

/-- Whatever the interleaving, the file is what the lines written one after the other make of it, with
what was there before lost where it was emptied; and the lines of each thread are those of the requests
that it was told are done, in their order, and perhaps the one that it will be told next. -/
theorem processes_write_lines (hv : (wholeProcesses w process).Valid (Sections.groupsAt file) run) :
    let last := (logProcesses w process).pool.exec (Sections.groupsAt file) run
    let entries := (logProcesses w process).pool.labels entryOf (Sections.groupsAt file) run
    last.1.value = (journal w process).exec file entries ∧
      ∀ t, entries.filterMap (Entry.requestOf t) =
        (logProcesses w process).pool.labels (doneOf t) (Sections.groupsAt file) run ++
          unlocking (last.2 t) := by
  intro last entries
  have hsilent : ∀ (c : LogProcesses π ι) i, (∀ t, Carries (w (process t)) (c.2 t)) →
      (wholeProcesses w process).enabled c i → entryOf c i = none →
        ((wholeProcesses w process).next c i).1.value = c.1.value := by
    intro c i h he hnone
    rw [value_next h he, hnone]
    rfl
  have hshown : ∀ (c : LogProcesses π ι) i e, (∀ t, Carries (w (process t)) (c.2 t)) →
      (wholeProcesses w process).enabled c i → entryOf c i = some e →
        (journal w process).enabled c.1.value e ∧
          ((wholeProcesses w process).next c i).1.value = (journal w process).next c.1.value e := by
    intro c i e h he hsome
    rw [value_next h he, hsome]
    exact ⟨trivial, rfl⟩
  have hentries : (wholeProcesses w process).labels entryOf (Sections.groupsAt file) run = entries :=
    Machine.restrict_labels ..
  constructor
  · have hstart : ∀ t, Carries (w (process t)) ((Sections.groupsAt file : LogProcesses π ι).2 t) :=
      fun _ => trivial
    have hrun := Machine.exec_labels (fun c i h he => carries_next h he) hsilent hshown hstart hv
    rw [hentries] at hrun
    exact hrun.right
  · intro t
    have horder := Machine.labels_in_order (fun c i he => unlocking_next he t) hv
    rw [← Machine.labels_filterMap, hentries, Machine.restrict_labels] at horder
    exact horder

def linesOfTwo : List (Bool × LogAction) :=
  [(false, .call greetingRequest), (true, .call greetingRequest), (false, .lock), (true, .lock),
    (false, .step (.stat (some 1))), (true, .step (.stat (some 1))), (true, .step (.write (some 27))),
    (true, .unlock), (false, .step (.write (some 27)))]

theorem processes_write_lines_two :
    let last := (logProcesses (fun _ => listening) id).pool.exec (Sections.groupsAt [120]) linesOfTwo
    let entries := (logProcesses (fun _ => listening) id).pool.labels entryOf (Sections.groupsAt [120]) linesOfTwo
    last.1.value = (journal (fun _ => listening) id).exec [120] entries ∧
      ∀ t, entries.filterMap (Entry.requestOf t) =
        (logProcesses (fun _ => listening) id).pool.labels (doneOf t) (Sections.groupsAt [120]) linesOfTwo ++
          unlocking (last.2 t) := by
  apply processes_write_lines
  refine ⟨⟨trivial, trivial⟩, ⟨trivial, trivial⟩, ⟨rfl, trivial⟩, ⟨rfl, trivial⟩, ⟨?_, trivial⟩, ⟨?_, trivial⟩,
    ⟨?_, rfl⟩, ⟨trivial, trivial⟩, ⟨?_, rfl⟩, trivial⟩
  · rintro n ⟨rfl⟩
    rfl
  · rintro n ⟨rfl⟩
    rfl
  · rintro n ⟨rfl⟩
    decide
  · rintro n ⟨rfl⟩
    decide

end Runs

end Journal

end RlLibrary.Log
