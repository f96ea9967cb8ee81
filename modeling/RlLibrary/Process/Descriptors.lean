import RlLibrary.Eth.Releases
import RlLibrary.Log.Tracing
import RlLibrary.Memory.ReportPath
import RlLibrary.Sys.Tracing

namespace RlLibrary.Process

open Foundation Traced Log Sys

open Memory (ReportLine MemState deinitAnswers rlMemoryTraceDeinit)

section Report

def printLines : List ReportLine → Traced Sys.Handle Unit
  | [] => pure ()
  | _ :: lines => do
    use .file
    printLines lines

def tracedTraceDeinit (exe : Option CString) (comm : Option (List Byte)) (time : Option RlTime) (fopen : Bool)
    (s : MemState) : Traced Sys.Handle (ℤ × List ReportLine × MemState) :=
  let ans := deinitAnswers exe comm time fopen
  let answer := rlMemoryTraceDeinit ans s
  if s.rlMemoryTraceState = false then pure answer else
  if ans.path = none ∨ ans.path = some [] then pure answer else do
  let _ ← tracedProcName (some ⟨List.replicate 32 0, []⟩) 32 comm
  -- it fails, without having opened the report, or writes all of it
  if answer.1 = RL_FAILED then pure answer else do
  acquire .file
  printLines answer.2.1
  release .file
  pure answer

theorem tracedTraceDeinit_value (exe : Option CString) (comm : Option (List Byte)) (time : Option RlTime)
    (fopen : Bool) (s : MemState) :
    (tracedTraceDeinit exe comm time fopen s).value =
      rlMemoryTraceDeinit (deinitAnswers exe comm time fopen) s := by
  rw [tracedTraceDeinit]
  split_ifs <;> rfl

theorem keeps_printLines (lines : List ReportLine) : (printLines lines).Keeps [.file] [.file] := by
  induction lines with
  | nil => exact keeps_pure _ _
  | cons line lines ih => exact ih.use_only

theorem traceDeinit_releasesAll (exe : Option CString) (comm : Option (List Byte)) (time : Option RlTime)
    (fopen : Bool) (s : MemState) : (tracedTraceDeinit exe comm time fopen s).ReleasesAll := by
  apply Keeps.ite (keeps_pure _ _)
  apply Keeps.ite (keeps_pure _ _)
  apply (procName_releasesAll _ _ _).bind []
  apply Keeps.ite (keeps_pure _ _)
  apply Keeps.acquire
  apply (keeps_printLines _).bind [.file]
  exact keeps_leave _ _

end Report

inductive Held where
  | other (fd : ℕ)
  | log (h : Log.Handle)
  | sys (h : Sys.Handle)
  | eth (h : Eth.Handle)
  | server (r : Time.Resource)
  deriving DecidableEq

inductive Call where
  | log (c : LogCall)
  | cpuUsage (env : StatEnv) (tracker : CpuUsage)
  | cpuTemperature (env : TemperatureEnv)
  | memoryUsage (status : Option (List Byte))
  | procName (name : Option Buffer) (len : ℕ) (comm : Option (List Byte))
  | fdCount (env : FdEnv)
  | memoryTraceDeinit (exe : Option CString) (comm : Option (List Byte)) (time : Option RlTime) (fopen : Bool)
      (s : MemState)
  | cardState (timeoutMs retryCount : BitVec 32) (env : ℕ → Eth.CardAttempt)
  | connectTcp (trySec : BitVec 32) (env : Eth.TcpEnv)
  | connectTcpSel (trySec : BitVec 32) (env : Eth.TcpSelEnv)
  | connectUdp (trySec : BitVec 32) (env : Eth.UdpEnv)
  | dhcp (env : Eth.FileEnv)
  | ipAddress (buf : Option Buffer) (len : ℕ) (env : Eth.IfreqEnv)
  | subnetMask (buf : Option Buffer) (len : ℕ) (env : Eth.IfreqEnv)
  | gateway (buf : Option Buffer) (len : ℕ) (env : Eth.RouteEnv)
  | timeFromServer (trySec : BitVec 32) (time : RlTime) (env : Time.ServerEnv)

section Calls

variable {ρ : Type} {α : Type}

def besides (g : ρ → Held) (x : Traced ρ α) (w : LogWorld) : Traced Held LogWorld := do
  let _ ← x.among g
  pure w

def Call.traced (w : LogWorld) : Call → Traced Held LogWorld
  | .log c => do
    let answer ← (w.traced c).among .log
    pure answer.2
  | .cpuUsage env tracker => besides .sys (tracedCpuUsage env tracker) w
  | .cpuTemperature env => besides .sys (tracedCpuTemperature env) w
  | .memoryUsage status => besides .sys (tracedMemoryUsage status) w
  | .procName name len comm => besides .sys (tracedProcName name len comm) w
  | .fdCount env => besides .sys (rlGetFdCount env) w
  | .memoryTraceDeinit exe comm time fopen s => besides .sys (tracedTraceDeinit exe comm time fopen s) w
  | .cardState timeoutMs retryCount env => besides .eth (Eth.rlGetEthernetCardState timeoutMs retryCount env) w
  | .connectTcp trySec env => besides .eth (Eth.rlGetEthernetConnectTcp trySec env) w
  | .connectTcpSel trySec env => besides .eth (Eth.rlGetEthernetConnectTcpSel trySec env) w
  | .connectUdp trySec env => besides .eth (Eth.rlGetEthernetConnectUdp trySec env) w
  | .dhcp env => besides .eth (Eth.rlGetDhcp env) w
  | .ipAddress buf len env => besides .eth (Eth.rlGetIpAddress buf len env) w
  | .subnetMask buf len env => besides .eth (Eth.rlGetSubnetMask buf len env) w
  | .gateway buf len env => besides .eth (Eth.rlGetGateway buf len env) w
  | .timeFromServer trySec time env => besides .server (Time.tracedServer trySec time env) w

theorem besides_keeps [DecidableEq ρ] {g : ρ → Held} (hg : Function.Injective g) {x : Traced ρ α}
    (hx : x.ReleasesAll) (w : LogWorld) (held : List Held) : (besides g x w).Keeps held held := by
  have hamong : (x.among g).Keeps [] [] := hx.among hg
  exact (hamong.frame held).bind held (keeps_pure _ _)

theorem sys_injective : Function.Injective Held.sys := fun _ _ h => Held.sys.inj h

theorem eth_injective : Function.Injective Held.eth := fun _ _ h => Held.eth.inj h

theorem server_injective : Function.Injective Held.server := fun _ _ h => Held.server.inj h

theorem logHandle_injective : Function.Injective Held.log := fun _ _ h => Held.log.inj h

end Calls

/-- `held` is `none` when something has been used or closed that was not open. -/
structure ProcState where
  log : LogWorld
  held : Option (List Held)

def ProcState.start (others : List ℕ) (file : List Byte) : ProcState :=
  ⟨LogWorld.start file, some (others.map .other)⟩

/-- A process that has the descriptors `others` from elsewhere; `close` of the log file does not fail,
and no call writes outside `fdset` or `iface`. -/
def process : Machine ProcState Call where
  enabled s c := match c with
    | .log c => c.Closes s.log
    | .connectTcpSel _ env => env.SetFits
    | .gateway buf len env => env.Fits buf len
    | _ => True
  next s c := ⟨(c.traced s.log).value, s.held.bind (replay (c.traced s.log).events)⟩

def change (s : ProcState) : Call → ℤ
  | .log c => logChange s.log c
  | _ => 0

def Accounted (others : List ℕ) (s : ProcState) : Prop :=
  Named s.log ∧ s.held = some ((s.log.opened.map Log.Handle.log).map .log ++ others.map .other)

section Steps

variable {others : List ℕ} {s : ProcState}

theorem besides_next {ρ : Type} {α : Type} [DecidableEq ρ] {g : ρ → Held} (hg : Function.Injective g)
    {x : Traced ρ α} (hx : x.ReleasesAll) {c : Call} (hc : c.traced s.log = besides g x s.log) :
    process.next s c = s := by
  have hvalue : (c.traced s.log).value = s.log := by
    rw [hc]
    rfl
  have hheld : s.held.bind (replay (c.traced s.log).events) = s.held := by
    cases hs : s.held with
    | none => rfl
    | some held =>
      rw [hc]
      exact besides_keeps hg hx s.log held
  change (⟨_, _⟩ : ProcState) = s
  rw [hvalue, hheld]

theorem process_next {s : ProcState} {c : Call} (henabled : process.enabled s c) (hc : ∀ l, c ≠ .log l) :
    process.next s c = s := by
  cases c with
  | log c => exact absurd rfl (hc c)
  | cpuUsage env tracker => exact besides_next sys_injective (cpuUsage_releasesAll _ _) rfl
  | cpuTemperature env => exact besides_next sys_injective (cpuTemperature_releasesAll _) rfl
  | memoryUsage status => exact besides_next sys_injective (memoryUsage_releasesAll _) rfl
  | procName name len comm => exact besides_next sys_injective (procName_releasesAll _ _ _) rfl
  | fdCount env => exact besides_next sys_injective (fdCount_releasesAll _) rfl
  | memoryTraceDeinit exe comm time fopen m =>
    exact besides_next sys_injective (traceDeinit_releasesAll _ _ _ _ _) rfl
  | cardState timeoutMs retryCount env => exact besides_next eth_injective (Eth.cardState_releasesAll _ _ _) rfl
  | connectTcp trySec env => exact besides_next eth_injective (Eth.connectTcp_releasesAll _ _) rfl
  | connectTcpSel trySec env => exact besides_next eth_injective (Eth.connectTcpSel_releasesAll _ henabled) rfl
  | connectUdp trySec env => exact besides_next eth_injective (Eth.connectUdp_releasesAll _ _) rfl
  | dhcp env => exact besides_next eth_injective (Eth.dhcp_releasesAll _) rfl
  | ipAddress buf len env => exact besides_next eth_injective (Eth.lookUp_releasesAll .SIOCGIFADDR _ _ _) rfl
  | subnetMask buf len env => exact besides_next eth_injective (Eth.lookUp_releasesAll .SIOCGIFNETMASK _ _ _) rfl
  | gateway buf len env => exact besides_next eth_injective (Eth.gateway_releasesAll henabled) rfl
  | timeFromServer trySec time env =>
    exact besides_next server_injective (Time.tracedServer_releasesAll _ _ _) rfl

theorem log_next (h : Accounted others s) (c : LogCall) :
    process.next s (.log c) = ⟨(s.log.answer c).2,
      some (((s.log.answer c).2.opened.map Log.Handle.log).map .log ++ others.map .other)⟩ := by
  have hvalue : (Call.traced s.log (.log c)).value = (s.log.answer c).2 := by
    rw [← traced_value]
    rfl
  have hkeeps : (Call.traced s.log (.log c)).Keeps _ _ :=
    (((traced_keeps h.1 c).among logHandle_injective).frame (others.map .other)).bind _ (keeps_pure _ _)
  change (⟨_, _⟩ : ProcState) = _
  rw [hvalue, h.2, Option.bind_some, hkeeps]

theorem next_accounted (h : Accounted others s) {c : Call} (hc : process.enabled s c) :
    Accounted others (process.next s c) ∧
      ((process.next s c).log.opened.length : ℤ) = s.log.opened.length + change s c := by
  by_cases hlog : ∃ l, c = .log l
  · obtain ⟨l, rfl⟩ := hlog
    rw [log_next h]
    exact ⟨⟨named_answer h.1 hc, rfl⟩, opened_answer h.1 hc⟩
  · have hother : ∀ l, c ≠ .log l := fun l hl => hlog ⟨l, hl⟩
    have hzero : change s c = 0 := by
      cases c with
      | log l => exact absurd rfl (hother l)
      | _ => rfl
    rw [process_next hc hother, hzero]
    exact ⟨h, (Int.add_zero _).symm⟩

theorem exec_accounted {run : List Call} (h : Accounted others s) (hv : process.Valid s run) :
    Accounted others (process.exec s run) ∧ ((process.exec s run).log.opened.length : ℤ) =
      s.log.opened.length + (process.replies change s run).sum := by
  induction run generalizing s with
  | nil => exact ⟨h, (Int.add_zero _).symm⟩
  | cons c run ih =>
    obtain ⟨hnext, hlength⟩ := next_accounted h hv.1
    obtain ⟨hend, hmore⟩ := ih hnext hv.2
    refine ⟨hend, ?_⟩
    rw [Machine.exec_cons, hmore, hlength, Machine.replies, List.sum_cons, Int.add_assoc]

end Steps

def OpensOnce (s : ProcState) (run : List Call) : Prop :=
  ∀ pre level env, pre ++ [.log (.init level env)] <+: run → (process.exec s pre).log.logFileFd = none

section Runs

variable {others : List ℕ} {file : List Byte} {run : List Call} {w : LogWorld}

theorem start_accounted (others : List ℕ) (file : List Byte) : Accounted others (.start others file) :=
  ⟨nofun, rfl⟩

theorem answer_opened (h : w.opened = w.logFileFd.toList) {c : LogCall} (hc : c.Closes w)
    (hinit : ∀ level env, c = .init level env → w.logFileFd = none) :
    (w.answer c).2.opened = (w.answer c).2.logFileFd.toList := by
  cases c with
  | init level env =>
    have hnone := hinit level env rfl
    rw [hnone, Option.toList_none] at h
    rcases rlLogInit_cases level env w with ⟨_, hfd, hopened⟩ | ⟨fd, _, hfd, hopened⟩
    · rw [hnone, or_self] at hfd
      rw [LogWorld.answer, hopened, hfd, h]
      rfl
    · rw [LogWorld.answer, hopened, hfd, h]
      rfl
  | deinit env =>
    rcases rlLogDeint_cases hc with hsame | ⟨fd, hfd, _, hnone, hopened⟩
    · rw [LogWorld.answer, hsame]
      exact h
    · rw [LogWorld.answer, hopened, hnone, h, hfd, Option.toList_some, List.erase_cons_head]
      rfl
  | log m =>
    obtain ⟨hfd, hopened⟩ := rlLogGeneric_frame m.level m.message m.env w
    rw [LogWorld.answer, hfd, hopened]
    exact h

theorem exec_opened (hv : process.Valid (.start others file) run) (honce : OpensOnce (.start others file) run) :
    ∀ pre, pre <+: run → (process.exec (.start others file) pre).log.opened =
      (process.exec (.start others file) pre).log.logFileFd.toList := by
  apply process.prefix_invariant
    (P := fun s : ProcState => s.log.opened = s.log.logFileFd.toList) rfl
  intro pre c hpre hbefore
  have hvalid := process.valid_of_prefix hpre hv
  rw [Machine.valid_append] at hvalid
  have haccounted := (exec_accounted (start_accounted others file) hvalid.1).1
  by_cases hlog : ∃ l, c = .log l
  · obtain ⟨l, rfl⟩ := hlog
    rw [log_next haccounted]
    refine answer_opened hbefore hvalid.2.1 fun level env hinit => ?_
    subst hinit
    exact honce pre level env hpre
  · rw [process_next hvalid.2.1 fun l hl => hlog ⟨l, hl⟩]
    exact hbefore

/-- After any run nothing has been used or closed that was not open, and `rl_get_fd_count` gives what
the process had from elsewhere, the log files, and the directory that it reads itself. -/
theorem fd_count_tells (others : List ℕ) (file : List Byte) (run : List Call)
    (hv : process.Valid (.start others file) run) :
    let s := process.exec (.start others file) run
    let more := (process.replies change (.start others file) run).sum
    (∃ held, s.held = some held ∧ (held.length : ℤ) = others.length + more ∧
      ∀ env : FdEnv, env.opendir = true → env.closedir = true →
        ListsDescriptors env.readdir (held.length + 1) →
          (rlGetFdCount env).value = others.length + more + 1) ∧
    (OpensOnce (.start others file) run → more = 0 ∨ more = 1) := by
  intro s more
  obtain ⟨⟨_, hheld⟩, hlength⟩ := exec_accounted (start_accounted others file) hv
  have hstart : ((ProcState.start others file).log.opened.length : ℤ) = 0 := rfl
  rw [hstart, Int.zero_add] at hlength
  constructor
  · refine ⟨_, hheld, ?_, fun env hopen hclose hlist => ?_⟩
    · simp only [List.length_append, List.length_map]
      omega
    · rw [rlGetFdCount_lists hopen hclose hlist]
      simp only [List.length_append, List.length_map]
      omega
  · intro honce
    have hopened := exec_opened hv honce run List.prefix_rfl
    rw [hopened] at hlength
    cases hfd : (process.exec (.start others file) run).log.logFileFd with
    | none =>
      rw [hfd] at hlength
      exact Or.inl hlength.symm
    | some fd =>
      rw [hfd] at hlength
      exact Or.inr hlength.symm

def loggingRun : List Call := [.log (.init .info (plainInit 3)), .dhcp ⟨true, text "auto eth0\n"⟩]

theorem fd_count_tells_logging : process.Valid (.start [0, 1, 2] []) loggingRun ∧
    ∃ held, (process.exec (.start [0, 1, 2] []) loggingRun).held = some held ∧ (held.length : ℤ) = 4 := by
  have hvalid : process.Valid (.start [0, 1, 2] []) loggingRun := ⟨trivial, trivial, trivial⟩
  have hmore : (process.replies change (.start [0, 1, 2] []) loggingRun).sum = 1 := rfl
  obtain ⟨held, hheld, hlength, _⟩ := (fd_count_tells [0, 1, 2] [] loggingRun hvalid).1
  exact ⟨hvalid, held, hheld, by rw [hlength, hmore]; rfl⟩

end Runs

end RlLibrary.Process
