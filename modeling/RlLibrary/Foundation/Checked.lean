import Mathlib.Algebra.Group.Int.Defs
import Mathlib.Data.Int.Notation

namespace RlLibrary.Foundation

def InInt (i : ℤ) : Prop := -2 ^ 31 ≤ i ∧ i < 2 ^ 31

instance (i : ℤ) : Decidable (InInt i) := inferInstanceAs (Decidable (_ ∧ _))

/-- The value of an `int` expression; `none` when it overflows. -/
def checked (i : ℤ) : Option ℤ := if InInt i then some i else none

theorem checked_of {i : ℤ} (h : InInt i) : checked i = some i := if_pos h

end RlLibrary.Foundation
