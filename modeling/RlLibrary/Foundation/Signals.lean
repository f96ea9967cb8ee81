import Mathlib.Data.Finset.Insert
import RlLibrary.Foundation.WaitStatus

namespace RlLibrary.Foundation

def SIGINT : Signal := ⟨2, by decide, by decide⟩
def SIGQUIT : Signal := ⟨3, by decide, by decide⟩
def SIGCHLD : Signal := ⟨17, by decide, by decide⟩

inductive Handler where
  | default
  | ignore
  | function (entry : ℕ)
  deriving DecidableEq

structure Disposition where
  handler : Handler
  flags : BitVec 32
  mask : Finset Signal
  deriving DecidableEq

def SA_RESTART : BitVec 32 := 0x10000000#32

/-- The disposition that `signal(sig, handler)` installs (BSD semantics). -/
def Disposition.bsd (sig : Signal) (handler : Handler) : Disposition :=
  ⟨handler, SA_RESTART, {sig}⟩

structure SignalState where
  disposition : Signal → Disposition
  blocked : Finset Signal

namespace SignalState

def sigaction (ok : Bool) (sig : Signal) (act : Disposition) (s : SignalState) : SignalState :=
  if ok then { s with disposition := Function.update s.disposition sig act } else s

def signal (sig : Signal) (handler : Handler) (s : SignalState) : SignalState :=
  s.sigaction true sig (.bsd sig handler)

def block (ok : Bool) (sig : Signal) (s : SignalState) : SignalState :=
  if ok then { s with blocked := insert sig s.blocked } else s

def setMask (ok : Bool) (mask : Finset Signal) (s : SignalState) : SignalState :=
  if ok then { s with blocked := mask } else s

variable (s : SignalState)

@[simp] theorem sigaction_self (sig : Signal) (act : Disposition) :
    (s.sigaction true sig act).disposition sig = act := Function.update_self ..

@[simp] theorem sigaction_other (ok : Bool) {sig sig' : Signal} (act : Disposition)
    (h : sig' ≠ sig) : (s.sigaction ok sig act).disposition sig' = s.disposition sig' := by
  cases ok with
  | false => rfl
  | true => exact Function.update_of_ne h ..

@[simp] theorem sigaction_blocked (ok : Bool) (sig : Signal) (act : Disposition) :
    (s.sigaction ok sig act).blocked = s.blocked := by
  cases ok <;> rfl

@[simp] theorem signal_self (sig : Signal) (handler : Handler) :
    (s.signal sig handler).disposition sig = .bsd sig handler := sigaction_self ..

@[simp] theorem signal_other {sig sig' : Signal} (handler : Handler) (h : sig' ≠ sig) :
    (s.signal sig handler).disposition sig' = s.disposition sig' := sigaction_other s _ _ h

@[simp] theorem signal_blocked (sig : Signal) (handler : Handler) :
    (s.signal sig handler).blocked = s.blocked := rfl

@[simp] theorem block_disposition (ok : Bool) (sig : Signal) :
    (s.block ok sig).disposition = s.disposition := by
  cases ok <;> rfl

@[simp] theorem block_blocked (sig : Signal) : (s.block true sig).blocked = insert sig s.blocked :=
  rfl

@[simp] theorem setMask_disposition (ok : Bool) (mask : Finset Signal) :
    (s.setMask ok mask).disposition = s.disposition := by
  cases ok <;> rfl

end SignalState

end RlLibrary.Foundation
