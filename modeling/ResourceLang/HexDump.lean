import ResourceLang.Text.Numeral

/-!
Hex dumps. A row shows sixteen bytes: its offset in eight digits, the bytes in two digits each, and
the bytes as characters where they are ASCII and can be seen. The last row is padded, so that the
characters of all rows begin in one column.
-/

set_option autoImplicit false
set_option relaxedAutoImplicit false

namespace ResourceLang.HexDump

open Text

def rowSize : Nat := 16

/-- A space and the graphic characters of ASCII stand for themselves, and a dot for any other
byte. -/
def shown (b : UInt8) : Char := if 0x20 ≤ b ∧ b ≤ 0x7E then Char.ofNat b.toNat else '.'

def cell (b : UInt8) : List Char := Numeral.hex 2 b.toNat ++ [' ']

def row (offset : Nat) (bs : List UInt8) : List Char :=
  Numeral.hex 8 offset ++ [' ', ' '] ++ (bs.flatMap cell).rightpad (3 * rowSize) ' ' ++
    ' ' :: bs.map shown ++ ['\n']

/-- The rows of the bytes, the first of which has the offset `offset`. -/
def rowsFrom (offset : Nat) (bs : List UInt8) : List Char :=
  match bs with
  | [] => []
  | b :: rest =>
    row offset ((b :: rest).take rowSize) ++ rowsFrom (offset + rowSize) ((b :: rest).drop rowSize)
termination_by bs.length
decreasing_by simp only [rowSize, List.length_drop, List.length_cons]; omega

def render (bs : List UInt8) : String := String.ofList (rowsFrom 0 bs)

end ResourceLang.HexDump
