import Mathlib.Data.Int.Notation
import Mathlib.Data.Nat.Notation

/-!
Return codes shared by all modules (`public.h` itself is not part of the sources) and the
broken-down time `rl_time_t`, which is the C library's `struct tm` (`tmZone` is a pointer).
-/

namespace RlLibrary

def RL_TRUE : ℤ := 1

def RL_FALSE : ℤ := 0

def RL_SUCCESS : ℤ := 0

def RL_FAILED : ℤ := -1

theorem failed_ne_success : RL_FAILED ≠ RL_SUCCESS := by decide

structure RlTime where
  tmSec : ℤ
  tmMin : ℤ
  tmHour : ℤ
  tmMday : ℤ
  tmMon : ℤ
  tmYear : ℤ
  tmWday : ℤ
  tmYday : ℤ
  tmIsdst : ℤ
  tmGmtoff : ℤ
  tmZone : ℕ
  deriving DecidableEq, Repr

def RlTime.zero : RlTime := ⟨0, 0, 0, 0, 0, 0, 0, 0, 0, 0, 0⟩

end RlLibrary
