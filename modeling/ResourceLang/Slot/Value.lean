import ResourceLang.Slot.Type
import ResourceLang.Text.Utf8

/-!
Slot values. An integer is as wide as the slots it fits, and a text carries a length hint, which is
its byte length in a pascal slot, the width in a fixed slot and zero in a terminated one.
-/

set_option autoImplicit false
set_option relaxedAutoImplicit false

namespace ResourceLang

open Text

structure Rect where
  top : Int16
  left : Int16
  bottom : Int16
  right : Int16
  deriving DecidableEq, Repr

inductive Value
  | unsigned (width : Width) (n : BitVec width.bits)
  | signed (width : Width) (n : BitVec width.bits)
  | rect (rect : Rect)
  | string (text : String) (length : Nat)
  | bytes (data : List UInt8)
  deriving DecidableEq, Repr

namespace Value

/-- A text whose hint is its byte length. -/
def ofText (text : String) : Value := string text text.utf8ByteSize

/-- Whether the value can be laid out as `type`. A text with a NUL in it still fits. -/
def fits : Value → SlotType → Bool
  | unsigned width _, .unsigned slot => width = slot
  | signed width _, .signed slot => width = slot
  | rect _, .rect => true
  | string _ _, .pascal => true
  | string _ _, .fixed _ => true
  | string _ _, .terminated => true
  | bytes _, .hexData => true
  | _, _ => false

/-- The name by which messages call the form of a value. -/
def typeName : Value → String
  | unsigned .byte _ => "u8"
  | unsigned .word _ => "u16"
  | unsigned .long _ => "u32"
  | unsigned .quad _ => "u64"
  | signed .byte _ => "i8"
  | signed .word _ => "i16"
  | signed .long _ => "i32"
  | signed .quad _ => "i64"
  | rect _ => "rect"
  | string _ _ => "string"
  | bytes _ => "bytes"

def unsigned? : Value → Option Nat
  | unsigned _ n => some n.toNat
  | _ => none

/-- The number of any integer value that 64 bits with a sign can hold. -/
def signed? : Value → Option Int
  | signed _ n => some n.toInt
  | unsigned _ n => if n.toNat ≤ Int64.maxValue.toInt then some n.toNat else none
  | _ => none

def text? : Value → Option String
  | string text _ => some text
  | _ => none

def rect? : Value → Option Rect
  | rect edges => some edges
  | _ => none

def bytes? : Value → Option (List UInt8)
  | bytes data => some data
  | _ => none

end Value

end ResourceLang
