/-!
Whole numbers in text. Reading is strict: one digit at least, digits of the radix only, ASCII only.
A plus sign may stand in front, and a minus sign only where a signed number is read. Bounds are the
caller's affair, so the numbers read are unbounded.
-/

set_option autoImplicit false
set_option relaxedAutoImplicit false

namespace ResourceLang.Text.Numeral

/-- Digits go on from nine with the letters, in either case. -/
def digit? (c : Char) : Option Nat :=
  if c.isDigit then some (c.toNat - 48)
  else if c.isLower then some (c.toNat - 87)
  else if c.isUpper then some (c.toNat - 55)
  else none

/-- Reads on from the number that the digits before denote. -/
def readOn (radix : Nat) (sofar : Nat) : List Char → Option Nat
  | [] => some sofar
  | c :: cs =>
    match digit? c with
    | some d => if d < radix then readOn radix (sofar * radix + d) cs else none
    | none => none

def readDigits (radix : Nat) (cs : List Char) : Option Nat :=
  if cs.isEmpty then none else readOn radix 0 cs

def readNat (radix : Nat) : List Char → Option Nat
  | '+' :: cs => readDigits radix cs
  | cs => readDigits radix cs

def readInt (radix : Nat) : List Char → Option Int
  | '-' :: cs => (readDigits radix cs).map fun n ↦ -(n : Int)
  | cs => (readNat radix cs).map fun n ↦ (n : Int)

/-- Lower-case hexadecimal digits, padded with zeros to `width`. -/
def hex (width n : Nat) : List Char := (Nat.toDigits 16 n).leftpad width '0'

def upperHex (width n : Nat) : List Char := (hex width n).map Char.toUpper

theorem readOn_append (radix sofar : Nat) (cs ds : List Char) :
    readOn radix sofar (cs ++ ds) = (readOn radix sofar cs).bind (readOn radix · ds) := by
  induction cs generalizing sofar with
  | nil => rfl
  | cons c cs ih =>
    simp only [List.cons_append, readOn]
    split
    · split
      · exact ih _
      · rfl
    · rfl

end ResourceLang.Text.Numeral
