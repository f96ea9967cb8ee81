import RlLibrary.Log.Program

namespace RlLibrary.Log

open Foundation

def Owned (w : LogWorld) : Prop :=
  w.opened.length = (if w.logFileFd = none then 0 else 1) ∧
    ∀ fd, w.logFileFd = some fd → fd ∈ w.opened

def InitAtomic (w : LogWorld) : LogCall → Prop
  | .init level env => (rlLogInit level env w).1 = RL_FAILED →
      (rlLogInit level env w).2.curRlLogLevel = w.curRlLogLevel ∧
        (rlLogInit level env w).2.procName = w.procName ∧
        (rlLogInit level env w).2.logFileFd = w.logFileFd
  | .deinit _ => True
  | .log _ => True

def OwnsOne (w : LogWorld) (run : List LogCall) : Prop :=
  (∀ pre, pre <+: run → Owned (logger.exec w pre)) ∧
    ∀ pre c, pre ++ [c] <+: run → InitAtomic (logger.exec w pre) c

def nameRead (env : InitEnv) (w : LogWorld) : ProcName :=
  match env.fgets with
  | .eof => w.procName
  | .error left => left
  | .line bytes => readName bytes

/-- An initialisation succeeds on a logger that is not open, or fails with the level and the
name it would have stored already there, without having overwritten a descriptor; `close`
does not fail after a successful `fsync`. -/
def Harmless (w : LogWorld) : LogCall → Prop
  | .init level env =>
    if env.fopen = false then level = w.curRlLogLevel else
    match env.fgets with
    | .line _ =>
      if env.openLog = none then
        level = w.curRlLogLevel ∧ nameRead env w = w.procName ∧ w.logFileFd = none
      else w.logFileFd = none
    | _ => level = w.curRlLogLevel ∧ nameRead env w = w.procName
  | .deinit env => w.logFileFd = none ∨ env.fsync = false ∨ env.close = true
  | .log _ => True

section Step

variable {w : LogWorld}

theorem Owned.empty (h : Owned w) (hfd : w.logFileFd = none) : w.opened = [] := by
  apply List.length_eq_zero_iff.mp
  rw [h.1, if_pos hfd]

theorem Owned.single (h : Owned w) {fd : ℕ} (hfd : w.logFileFd = some fd) : w.opened = [fd] := by
  have hlength := h.1
  rw [if_neg (by simp [hfd])] at hlength
  obtain ⟨x, hx⟩ := List.length_eq_one_iff.mp hlength
  have hmem := h.2 fd hfd
  rw [hx, List.mem_singleton] at hmem
  rw [hx, hmem]

theorem owned_of_same {v : LogWorld} (hfd : v.logFileFd = w.logFileFd)
    (hopened : v.opened = w.opened) : Owned v ↔ Owned w := by
  rw [Owned, Owned, hfd, hopened]

theorem writeRlLog_frame (level : LogLevel) (message : CString) (env : WriteEnv) (w : LogWorld) :
    (writeRlLog level message env w).2.logFileFd = w.logFileFd ∧
      (writeRlLog level message env w).2.opened = w.opened := by
  simp only [writeRlLog]
  split_ifs <;> exact ⟨rfl, rfl⟩

theorem rlLogGeneric_frame (level : LogLevel) (message : Option (List Byte)) (env : WriteEnv)
    (w : LogWorld) :
    (rlLogGeneric level message env w).2.logFileFd = w.logFileFd ∧
      (rlLogGeneric level message env w).2.opened = w.opened := by
  cases message with
  | none =>
    simp only [rlLogGeneric]
    split_ifs <;> exact ⟨rfl, rfl⟩
  | some buf =>
    have hframe := writeRlLog_frame level (CString.ofBuffer buf) env w
    simp only [rlLogGeneric]
    split_ifs
    · exact ⟨rfl, rfl⟩
    · exact ⟨rfl, rfl⟩
    · exact hframe
    · exact hframe

theorem log_owned (h : Owned w) (m : LogMessage) : Owned (w.call (.log m)) := by
  obtain ⟨hfd, hopened⟩ := rlLogGeneric_frame m.level m.message m.env w
  rw [LogWorld.call, rlLog_eq]
  exact (owned_of_same hfd hopened).mpr h

theorem deinit_owned_iff (h : Owned w) (env : DeinitEnv) :
    Owned (w.call (.deinit env)) ↔ Harmless w (.deinit env) := by
  cases hfd : w.logFileFd with
  | none =>
    have hsame : w.call (.deinit env) = w := by simp only [LogWorld.call, rlLogDeint, hfd]
    rw [hsame, Harmless]
    exact iff_of_true h (Or.inl hfd)
  | some fd =>
    have hopened := h.single hfd
    cases hsync : env.fsync with
    | false =>
      have hsame : w.call (.deinit env) = w := by
        simp only [LogWorld.call, rlLogDeint, hfd, hsync, ↓reduceIte]
      rw [hsame, Harmless]
      exact iff_of_true h (Or.inr (Or.inl hsync))
    | true =>
      cases hclose : env.close with
      | true => simp [LogWorld.call, rlLogDeint, hfd, hsync, hclose, hopened, Owned, Harmless]
      | false => simp [LogWorld.call, rlLogDeint, hfd, hsync, hclose, hopened, Owned, Harmless]

theorem init_gives_up_iff (h : Owned w) {level : LogLevel} {env : InitEnv} {name : ProcName}
    (hinit : rlLogInit level env w =
      (RL_FAILED, { w with curRlLogLevel := level, procName := name })) :
    (InitAtomic w (.init level env) ∧ Owned (w.call (.init level env))) ↔
      level = w.curRlLogLevel ∧ name = w.procName := by
  have howned : Owned (w.call (.init level env)) := by
    rw [LogWorld.call, hinit]
    exact (owned_of_same rfl rfl).mpr h
  simp only [howned, and_true, InitAtomic, hinit, true_implies]

theorem init_without_log_iff (h : Owned w) {level : LogLevel} {env : InitEnv} {bytes : List Byte}
    (hopen : env.fopen = true) (hread : env.fgets = .line bytes) (hlog : env.openLog = none) :
    (InitAtomic w (.init level env) ∧ Owned (w.call (.init level env))) ↔
      level = w.curRlLogLevel ∧ nameRead env w = w.procName ∧ w.logFileFd = none := by
  simp only [InitAtomic, LogWorld.call, rlLogInit, hopen, hread, hlog, nameRead,
    Bool.true_eq_false, ↓reduceIte, true_implies, Owned, reduceCtorEq, false_implies,
    implies_true, and_true]
  constructor
  · rintro ⟨⟨hlevel, hname, hfd⟩, _⟩
    exact ⟨hlevel, hname, hfd.symm⟩
  · rintro ⟨hlevel, hname, hfd⟩
    refine ⟨⟨hlevel, hname, hfd.symm⟩, ?_⟩
    rw [h.empty hfd, List.length_nil]

theorem init_opened_iff (h : Owned w) {level : LogLevel} {env : InitEnv} {bytes : List Byte}
    {fd : ℕ} (hopen : env.fopen = true) (hread : env.fgets = .line bytes)
    (hlog : env.openLog = some fd) :
    (InitAtomic w (.init level env) ∧ Owned (w.call (.init level env))) ↔ w.logFileFd = none := by
  have hatomic : InitAtomic w (.init level env) := by
    intro hfailed
    simp only [rlLogInit, hopen, hread, hlog, Bool.true_eq_false, ↓reduceIte] at hfailed
    exact absurd hfailed (by decide)
  have hcount := h.1
  simp only [hatomic, true_and, LogWorld.call, rlLogInit, hopen, hread, hlog,
    Bool.true_eq_false, ↓reduceIte, Owned, List.length_cons, reduceCtorEq]
  constructor
  · rintro ⟨hlength, _⟩
    by_contra hfd
    rw [if_neg hfd] at hcount
    omega
  · intro hfd
    rw [h.empty hfd]
    simp

theorem init_owned_iff (h : Owned w) (level : LogLevel) (env : InitEnv) :
    (InitAtomic w (.init level env) ∧ Owned (w.call (.init level env))) ↔
      Harmless w (.init level env) := by
  cases hopen : env.fopen with
  | false =>
    have hinit : rlLogInit level env w =
        (RL_FAILED, { w with curRlLogLevel := level, procName := w.procName }) := by
      simp only [rlLogInit, hopen, ↓reduceIte]
    rw [init_gives_up_iff h hinit]
    simp [Harmless, hopen]
  | true =>
    cases hread : env.fgets with
    | eof =>
      have hinit : rlLogInit level env w =
          (RL_FAILED, { w with curRlLogLevel := level, procName := w.procName }) := by
        simp only [rlLogInit, hopen, hread, Bool.true_eq_false, ↓reduceIte]
      rw [init_gives_up_iff h hinit]
      simp [Harmless, hopen, hread, nameRead]
    | error left =>
      have hinit : rlLogInit level env w =
          (RL_FAILED, { w with curRlLogLevel := level, procName := left }) := by
        simp only [rlLogInit, hopen, hread, Bool.true_eq_false, ↓reduceIte]
      rw [init_gives_up_iff h hinit]
      simp [Harmless, hopen, hread, nameRead]
    | line bytes =>
      cases hlog : env.openLog with
      | none =>
        rw [init_without_log_iff h hopen hread hlog]
        simp [Harmless, hopen, hread, hlog]
      | some fd =>
        rw [init_opened_iff h hopen hread hlog]
        simp [Harmless, hopen, hread, hlog]

theorem call_owned_iff (h : Owned w) (c : LogCall) :
    (InitAtomic w c ∧ Owned (w.call c)) ↔ Harmless w c := by
  cases c with
  | init level env => exact init_owned_iff h level env
  | deinit env =>
    rw [← deinit_owned_iff h env]
    exact ⟨And.right, fun howned => ⟨trivial, howned⟩⟩
  | log m => exact iff_of_true ⟨trivial, log_owned h m⟩ trivial

end Step

section Runs

variable {w : LogWorld} {run : List LogCall}

theorem owned_exec (h : Owned w)
    (hrun : ∀ pre c, pre ++ [c] <+: run → Harmless (logger.exec w pre) c) :
    ∀ pre, pre <+: run → Owned (logger.exec w pre) := by
  apply logger.prefix_invariant h
  intro pre c hpre hbefore
  exact ((call_owned_iff hbefore c).mpr (hrun pre c hpre)).2

theorem owns_one_iff (file : List Byte) (run : List LogCall) :
    OwnsOne (LogWorld.start file) run ↔
      ∀ pre c, pre ++ [c] <+: run → Harmless (logger.exec (LogWorld.start file) pre) c := by
  constructor
  · rintro ⟨howned, hatomic⟩ pre c hpre
    have hbefore := howned pre ((List.prefix_append _ _).trans hpre)
    have hafter := howned (pre ++ [c]) hpre
    rw [Machine.exec_append] at hafter
    exact (call_owned_iff hbefore c).mp ⟨hatomic pre c hpre, hafter⟩
  · intro hrun
    have hstart : Owned (LogWorld.start file) := ⟨rfl, nofun⟩
    have howned := owned_exec hstart hrun
    refine ⟨howned, fun pre c hpre => ?_⟩
    have hbefore := howned pre ((List.prefix_append _ _).trans hpre)
    exact ((call_owned_iff hbefore c).mpr (hrun pre c hpre)).1

def plainInit (fd : ℕ) : InitEnv := ⟨true, .line (text "app\n"), 42, some fd⟩

theorem second_init_leaks :
    logger.Valid (LogWorld.start []) [.init .info (plainInit 3), .init .info (plainInit 4)] ∧
      ¬ OwnsOne (LogWorld.start []) [.init .info (plainInit 3), .init .info (plainInit 4)] := by
  refine ⟨⟨?_, ?_, trivial⟩, fun h => ?_⟩
  · intro fd _
    exact List.not_mem_nil
  · intro fd hfd
    cases hfd
    decide
  · have hlength := (h.1 _ List.prefix_rfl).1
    exact absurd hlength (by decide)

end Runs

end RlLibrary.Log
