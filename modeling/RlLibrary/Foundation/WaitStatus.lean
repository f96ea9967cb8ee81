import Mathlib.Data.BitVec

namespace RlLibrary.Foundation

structure Signal where
  number : ℕ
  pos : 0 < number
  bound : number ≤ 64
  deriving DecidableEq

inductive Termination where
  | exited (code : BitVec 8)
  | killed (signal : Signal) (core : Bool)
  deriving DecidableEq

def Termination.status : Termination → BitVec 32
  | exited code => code.setWidth 32 <<< 8
  | killed signal core => BitVec.ofNat 32 signal.number ||| if core then 0x80#32 else 0#32

def WTERMSIG (status : BitVec 32) : BitVec 32 := status &&& 0x7f#32

def WIFEXITED (status : BitVec 32) : Bool := WTERMSIG status = 0#32

-- `((signed char) (((status) & 0x7f) + 1) >> 1) > 0`
def WIFSIGNALED (status : BitVec 32) : Bool :=
  BitVec.slt 0#8 (((WTERMSIG status + 1#32).setWidth 8).sshiftRight 1)

theorem WTERMSIG_exited (code : BitVec 8) : WTERMSIG (Termination.exited code).status = 0#32 := by
  revert code
  decide +kernel

theorem WTERMSIG_number : ∀ n < 65, ∀ core : Bool,
    WTERMSIG (BitVec.ofNat 32 n ||| if core then 0x80#32 else 0#32) = BitVec.ofNat 32 n := by
  decide +kernel

theorem WTERMSIG_killed (signal : Signal) (core : Bool) :
    (WTERMSIG (Termination.killed signal core).status).toNat = signal.number := by
  have hbound := signal.bound
  rw [Termination.status, WTERMSIG_number signal.number (by omega), BitVec.toNat_ofNat]
  omega

theorem WIFEXITED_exited (code : BitVec 8) : WIFEXITED (Termination.exited code).status = true := by
  rw [WIFEXITED, WTERMSIG_exited]
  rfl

theorem WIFEXITED_killed (signal : Signal) (core : Bool) :
    WIFEXITED (Termination.killed signal core).status = false := by
  have hnumber := WTERMSIG_killed signal core
  have hpos := signal.pos
  rw [WIFEXITED, decide_eq_false_iff_not]
  intro hzero
  rw [hzero] at hnumber
  simp only [BitVec.toNat_ofNat, Nat.zero_mod] at hnumber
  omega

theorem WIFSIGNALED_number : ∀ n < 65, 0 < n → ∀ core : Bool,
    WIFSIGNALED (BitVec.ofNat 32 n ||| if core then 0x80#32 else 0#32) = true := by
  decide +kernel

theorem WIFSIGNALED_killed (signal : Signal) (core : Bool) :
    WIFSIGNALED (Termination.killed signal core).status = true := by
  have hbound := signal.bound
  exact WIFSIGNALED_number signal.number (by omega) signal.pos core

end RlLibrary.Foundation
