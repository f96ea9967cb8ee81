import Mathlib.Init

namespace RlLibrary.Foundation

inductive MutexState where
  | uninitialised
  | unlocked
  | locked
  deriving DecidableEq, Repr

structure Mutex where
  state : MutexState
  misused : Bool
  deriving DecidableEq, Repr

namespace Mutex

def step (m : Mutex) (expected next : MutexState) : Mutex :=
  ⟨next, m.misused || decide (m.state ≠ expected)⟩

def init (m : Mutex) (succeeds : Bool) : Mutex :=
  m.step .uninitialised (if succeeds then .unlocked else .uninitialised)

def destroy (m : Mutex) : Mutex := m.step .unlocked .uninitialised

def lock (m : Mutex) : Mutex := m.step .unlocked .locked

def unlock (m : Mutex) : Mutex := m.step .locked .unlocked

end Mutex

end RlLibrary.Foundation
