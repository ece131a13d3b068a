import ResourceLang.Text.Ranges

/-!
White space as Unicode has it: the 25 code points of the property White_Space. Every character that
Lean's own ASCII class calls white space is among them.
-/

set_option autoImplicit false
set_option relaxedAutoImplicit false

namespace ResourceLang.Text.Blank

def ranges : List (Nat × Nat) :=
  [(0x9, 0xD), (0x20, 0x20), (0x85, 0x85), (0xA0, 0xA0), (0x1680, 0x1680), (0x2000, 0x200A),
   (0x2028, 0x2029), (0x202F, 0x202F), (0x205F, 0x205F), (0x3000, 0x3000)]

def isBlank (c : Char) : Bool := Ranges.covers ranges c.toNat

/-- The text without its white space. -/
def strip (cs : List Char) : List Char := cs.filter fun c ↦ !isBlank c

theorem isBlank_of_isWhitespace {c : Char} (h : c.isWhitespace = true) : isBlank c = true := by
  simp only [Char.isWhitespace, Bool.or_eq_true, decide_eq_true_eq] at h
  rcases h with ((rfl | rfl) | rfl) | rfl <;> decide

theorem not_isBlank_of_mem_strip {c : Char} {cs : List Char} (h : c ∈ strip cs) :
    isBlank c = false := by
  simpa using (List.mem_filter.1 h).2

end ResourceLang.Text.Blank
