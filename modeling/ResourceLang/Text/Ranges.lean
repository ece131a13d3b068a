/-!
Sets of code points given by closed ranges.
-/

set_option autoImplicit false
set_option relaxedAutoImplicit false

namespace ResourceLang.Text.Ranges

def covers (ranges : List (Nat × Nat)) (n : Nat) : Bool :=
  ranges.any fun range ↦ range.1 ≤ n && n ≤ range.2

theorem covers_iff (ranges : List (Nat × Nat)) (n : Nat) :
    covers ranges n = true ↔ ∃ range ∈ ranges, range.1 ≤ n ∧ n ≤ range.2 := by
  simp [covers]

end ResourceLang.Text.Ranges
