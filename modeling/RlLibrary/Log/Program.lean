import RlLibrary.Foundation.Machine
import RlLibrary.Foundation.Scan
import RlLibrary.Public

/-!
`rllog.c`: the descriptor of the log file, the level and the process name, the formatting of
a line and the loop that writes it. `file` is the content of the log file, and `opened` lists
the log descriptors that have been opened and not yet closed.
-/

namespace RlLibrary.Log

open Foundation

def RL_LOG_FILE_SIZE : ℕ := 1024 * 1024 * 50

def RL_LOG_BUF_SIZE : ℕ := 1024

def logBufSize : ℕ := RL_LOG_BUF_SIZE + 64

inductive LogLevel where
  | normal
  | error
  | warn
  | info
  | debug
  deriving DecidableEq, Repr

def LogLevel.code : LogLevel → ℕ
  | .normal => 0
  | .error => 1
  | .warn => 2
  | .info => 3
  | .debug => 4

/-- A string that `fgets(proc_name, sizeof(proc_name) - 1, proc_file)` can leave. -/
structure ProcName extends CString where
  short : bytes.length ≤ 15
  deriving DecidableEq

structure LogWorld where
  curRlLogLevel : LogLevel
  procName : ProcName
  pidNow : BitVec 32
  logFileFd : Option ℕ
  opened : List ℕ
  file : List Byte
  deriving DecidableEq

def LogWorld.start (file : List Byte) : LogWorld := ⟨.normal, ⟨⟨[], by decide⟩, by decide⟩, 0, none, [], file⟩

structure WallClock where
  tmHour : Fin 24
  tmMin : Fin 60
  tmSec : Fin 61

/-- The answers of `write`, for each call of the loop and each number of bytes asked for:
an error, or how many of them are written. -/
structure Writes where
  answer : ℕ → ℕ → Option ℕ
  lawful : ∀ i count n, 0 < count → answer i count = some n → 0 < n ∧ n ≤ count

structure WriteEnv where
  clock : WallClock
  tid : BitVec 32
  snprintf : Bool
  stat : Option ℕ
  ftruncate : Bool
  lseek : Bool
  writes : Writes

inductive ReadName where
  | line (bytes : List Byte)
  | eof
  -- what the array holds after an error
  | error (left : ProcName)
  deriving DecidableEq

structure InitEnv where
  fopen : Bool
  fgets : ReadName
  getpid : BitVec 32
  openLog : Option ℕ
  deriving DecidableEq

structure DeinitEnv where
  fsync : Bool
  close : Bool
  deriving DecidableEq

def levelName (level : LogLevel) : String :=
  if level = .error then "error" else
  if level = .warn then "warn" else
  if level = .info then "info" else "debug"

def formatLine (w : LogWorld) (env : WriteEnv) (level : LogLevel) (message : CString) :
    List Byte :=
  if level ≠ .normal then
    -- "%02d:%02d:%02d-%s-p%d-t%d %s:%s\n"
    signedDecimal 2 env.clock.tmHour.val ++ text ":" ++ signedDecimal 2 env.clock.tmMin.val ++
      text ":" ++ signedDecimal 2 env.clock.tmSec.val ++ text "-" ++ w.procName.bytes ++ text "-p" ++
      signedDecimal 0 w.pidNow.toInt ++ text "-t" ++ signedDecimal 0 env.tid.toInt ++ text " " ++
      text (levelName level) ++ text ":" ++ message.bytes ++ text "\n"
  else message.bytes

def printed (size : ℕ) (line : List Byte) : List Byte :=
  line.take (size - 1) ++ List.replicate (size - (size - 1) ⊓ line.length) 0

/-- The loop over `write`, with what is still to be written; the file is in append mode. -/
def writeLoop (writes : Writes) (i : ℕ) (rest file : List Byte) : ℤ × List Byte :=
  if _h : rest = [] then (RL_SUCCESS, file) else
  match _hn : writes.answer i rest.length with
  | none => (RL_FAILED, file)
  | some n => writeLoop writes (i + 1) (rest.drop n) (file ++ rest.take n)
termination_by rest.length
decreasing_by
  have hpos := List.length_pos_iff.mpr _h
  have hlawful := writes.lawful i _ n hpos _hn
  rw [List.length_drop]
  omega

def rotate (env : WriteEnv) (file : List Byte) : Bool × List Byte :=
  match env.stat with
  | none => (true, file)
  | some size =>
    if size > RL_LOG_FILE_SIZE then
      if env.ftruncate = false then (false, file) else (env.lseek, [])
    else (true, file)

def writeRlLog (level : LogLevel) (message : CString) (env : WriteEnv) (w : LogWorld) :
    ℤ × LogWorld :=
  if w.logFileFd = none then (RL_FAILED, w) else
  let line := formatLine w env level message
  if env.snprintf = false then (RL_FAILED, w) else
  let logBuf := printed logBufSize line
  let (goesOn, file) := rotate env w.file
  if goesOn = false then (RL_FAILED, { w with file := file }) else
  let (code, file) := writeLoop env.writes 0 (logBuf.take line.length) file
  (code, { w with file := file })

def rlLogGeneric (level : LogLevel) (message : Option (List Byte)) (env : WriteEnv)
    (w : LogWorld) : ℤ × LogWorld :=
  if w.curRlLogLevel.code < level.code then (RL_FAILED, w) else
  match message with
  -- `vsnprintf` fails
  | none => (RL_FAILED, w)
  | some buf =>
    if buf.length ≥ RL_LOG_BUF_SIZE then (RL_FAILED, w) else
    let (code, w) := writeRlLog level (CString.ofBuffer buf) env w
    if code ≠ RL_SUCCESS then (RL_FAILED, w) else (RL_SUCCESS, w)

def rlLogDebug (message : Option (List Byte)) (env : WriteEnv) (w : LogWorld) : LogWorld :=
  (rlLogGeneric .debug message env w).2

def rlLogInfo (message : Option (List Byte)) (env : WriteEnv) (w : LogWorld) : LogWorld :=
  (rlLogGeneric .info message env w).2

def rlLogWarn (message : Option (List Byte)) (env : WriteEnv) (w : LogWorld) : LogWorld :=
  (rlLogGeneric .warn message env w).2

def rlLogError (message : Option (List Byte)) (env : WriteEnv) (w : LogWorld) : LogWorld :=
  (rlLogGeneric .error message env w).2

def rlLogNormal (message : Option (List Byte)) (env : WriteEnv) (w : LogWorld) : LogWorld :=
  (rlLogGeneric .normal message env w).2

def rlLog (level : LogLevel) : Option (List Byte) → WriteEnv → LogWorld → LogWorld :=
  match level with
  | .normal => rlLogNormal
  | .error => rlLogError
  | .warn => rlLogWarn
  | .info => rlLogInfo
  | .debug => rlLogDebug

def readName (bytes : List Byte) : ProcName where
  bytes := (CString.ofBuffer (takeLine 15 bytes)).bytes.takeWhile fun b => b ≠ 10
  nonzero h := (CString.ofBuffer (takeLine 15 bytes)).nonzero ((List.takeWhile_prefix _).subset h)
  short := by
    have hline := takeLine_length_le 15 bytes
    have hstring := (CString.ofBuffer_prefix (takeLine 15 bytes)).length_le
    have hcut := (List.takeWhile_prefix (fun b : Byte => decide (b ≠ 10))
      (l := (CString.ofBuffer (takeLine 15 bytes)).bytes)).length_le
    omega

def rlLogInit (level : LogLevel) (env : InitEnv) (w : LogWorld) : ℤ × LogWorld :=
  let w := { w with curRlLogLevel := level }
  if env.fopen = false then (RL_FAILED, w) else
  match env.fgets with
  | .eof => (RL_FAILED, w)
  | .error left => (RL_FAILED, { w with procName := left })
  | .line bytes =>
    let w := { w with procName := readName bytes, pidNow := env.getpid, logFileFd := env.openLog }
    match env.openLog with
    | none => (RL_FAILED, w)
    | some fd => (RL_SUCCESS, { w with opened := fd :: w.opened })

def rlLogDeint (env : DeinitEnv) (w : LogWorld) : ℤ × LogWorld :=
  match w.logFileFd with
  | none => (RL_FAILED, w)
  | some fd =>
    if env.fsync = false then (RL_FAILED, w) else
    -- `close` releases the descriptor even when it reports an error
    let w := { w with opened := w.opened.erase fd }
    if env.close = false then (RL_FAILED, w) else
    (RL_SUCCESS, { w with logFileFd := none })

structure LogMessage where
  level : LogLevel
  message : Option (List Byte)
  env : WriteEnv

inductive LogCall where
  | init (level : LogLevel) (env : InitEnv)
  | deinit (env : DeinitEnv)
  | log (m : LogMessage)

def LogCall.Fresh (w : LogWorld) : LogCall → Prop
  | .init _ env => ∀ fd, env.openLog = some fd → fd ∉ w.opened
  | .deinit _ => True
  | .log _ => True

def LogWorld.call (w : LogWorld) : LogCall → LogWorld
  | .init level env => (rlLogInit level env w).2
  | .deinit env => (rlLogDeint env w).2
  | .log m => rlLog m.level m.message m.env w

def logger : Machine LogWorld LogCall := ⟨LogCall.Fresh, LogWorld.call⟩

theorem rlLog_eq (level : LogLevel) (message : Option (List Byte)) (env : WriteEnv)
    (w : LogWorld) : rlLog level message env w = (rlLogGeneric level message env w).2 := by
  cases level <;> rfl

end RlLibrary.Log
