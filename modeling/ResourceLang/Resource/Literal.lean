import ResourceLang.Resource.Error
import ResourceLang.Slot.Value
import ResourceLang.Text.Blank
import ResourceLang.Token.Basic

/-!
Literals as slot values. The type of the slot decides how a literal is read. A hexadecimal literal
in a signed slot is a bit pattern of the slot's width, and hexadecimal data come from the digits of
a literal or of a text, with white space left out and a digit without a partner taken as the low
half of a byte.
-/

set_option autoImplicit false
set_option relaxedAutoImplicit false

namespace ResourceLang

open Text

namespace Literal

inductive Fault
  | invalid
  | outOfRange
  | embeddedNul
  | unsupported
  deriving DecidableEq, Repr

/-- A numeral that is right in itself, but has a sign that the slot does not, is out of range. -/
def unsigned (width : Width) (lexeme : Lexeme) : Except Fault Value :=
  match lexeme.unsignedNumber with
  | .ok n =>
    match width.wordOfNat? n with
    | some word => .ok (.unsigned width word)
    | none => .error .outOfRange
  | .error _ =>
    match lexeme.number with
    | .ok _ => .error .outOfRange
    | .error _ => .error .invalid

/-- The word of a literal for a signed slot. -/
def signedWord? (width : Width) (lexeme : Lexeme) : Option (BitVec width.bits) :=
  match Lexeme.hexDigits? lexeme.text.toList with
  | some _ => lexeme.unsignedNumber.toOption.bind width.wordOfNat?
  | none => lexeme.number.toOption.bind width.wordOfInt?

def signed (width : Width) (lexeme : Lexeme) : Except Fault Value :=
  match signedWord? width lexeme with
  | some word => .ok (.signed width word)
  | none => .error .outOfRange

def text (type : SlotType) (lexeme : Lexeme) : Except Fault Value :=
  if type.endsAtNul ∧ '\x00' ∈ lexeme.text.toList then .error .embeddedNul
  else .ok (.string lexeme.text (type.lengthHint lexeme.text.utf8ByteSize))

/-- Two digits to a byte; each pair reads as a numeral of its own. -/
def readPairs : List Char → Option (List UInt8)
  | [] => some []
  | [_] => none
  | a :: b :: cs => do
    let n ← Numeral.readNat 16 [a, b]
    let rest ← readPairs cs
    return UInt8.ofNat n :: rest

def readBytes (digits : List Char) : Option (List UInt8) :=
  readPairs (if digits.length % 2 = 1 then '0' :: digits else digits)

/-- The digits that a literal gives for hexadecimal data. -/
def dataDigits? (lexeme : Lexeme) : Option (List Char) :=
  match lexeme.kind, lexeme.text.toList with
  | .integer, '0' :: 'x' :: digits => some digits
  | .string, cs => some (Blank.strip cs)
  | _, _ => none

def hexData (lexeme : Lexeme) : Except Fault Value :=
  match (dataDigits? lexeme).bind readBytes with
  | some data => .ok (.bytes data)
  | none => .error .invalid

/-- The value that a literal means in a slot of `type`. -/
def toValue (type : SlotType) (lexeme : Lexeme) : Except Fault Value :=
  match type with
  | .unsigned width => if lexeme.kind.isNumeric then unsigned width lexeme else .error .invalid
  | .signed width => if lexeme.kind.isNumeric then signed width lexeme else .error .invalid
  | .pascal | .fixed _ | .terminated =>
    if lexeme.kind.isTextual then text type lexeme else .error .invalid
  | .hexData => hexData lexeme
  | .rect => .error .invalid
  | .invalid _ => .error .unsupported

/-- The error that a fault of `lexeme` is for a field. -/
def Fault.toError (fault : Fault) (field : String) (type : SlotType) (lexeme : Lexeme) :
    WriteError :=
  match fault with
  | invalid => .invalidLiteral field lexeme.text
  | outOfRange => .valueOutOfRange field lexeme.text
  | embeddedNul => .invalidLiteral field (Quoted.bare lexeme.text)
  | unsupported => .unsupportedType field type

end Literal

end ResourceLang
