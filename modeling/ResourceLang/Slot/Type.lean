import ResourceLang.Text.Numeral

/-!
Slot types: how one value is laid out in a resource. Each type has a tag of sixteen bits, whose high
nibble tells the family, and a mnemonic of four characters.
-/

set_option autoImplicit false
set_option relaxedAutoImplicit false

namespace ResourceLang

open Text

/-- The widths of an integer slot. -/
inductive Width
  | byte
  | word
  | long
  | quad
  deriving DecidableEq, Repr

namespace Width

def bytes : Width → Nat
  | byte => 1
  | word => 2
  | long => 4
  | quad => 8

def bits (width : Width) : Nat := 8 * width.bytes

def mnemonic : Width → String
  | byte => "BYT"
  | word => "WRD"
  | long => "LNG"
  | quad => "QAD"

def ofBytes? : Nat → Option Width
  | 1 => some byte
  | 2 => some word
  | 4 => some long
  | 8 => some quad
  | _ => none

/-- The word that denotes a natural number, if one of this width does. -/
def wordOfNat? (width : Width) (n : Nat) : Option (BitVec width.bits) :=
  let word := BitVec.ofNat width.bits n
  if word.toNat = n then some word else none

/-- The word that denotes a number in two's complement, if one of this width does. -/
def wordOfInt? (width : Width) (n : Int) : Option (BitVec width.bits) :=
  let word := BitVec.ofInt width.bits n
  if word.toInt = n then some word else none

theorem ofBytes?_bytes (width : Width) : ofBytes? width.bytes = some width := by
  cases width <;> rfl

theorem wordOfNat?_eq_some_iff {width : Width} {n : Nat} {word : BitVec width.bits} :
    width.wordOfNat? n = some word ↔ word.toNat = n := by
  unfold wordOfNat?
  constructor
  · intro h
    simp only [Option.ite_none_right_eq_some, Option.some.injEq] at h
    exact h.2 ▸ h.1
  · rintro rfl
    simp

theorem wordOfInt?_eq_some_iff {width : Width} {n : Int} {word : BitVec width.bits} :
    width.wordOfInt? n = some word ↔ word.toInt = n := by
  unfold wordOfInt?
  constructor
  · intro h
    simp only [Option.ite_none_right_eq_some, Option.some.injEq] at h
    exact h.2 ▸ h.1
  · rintro rfl
    simp

end Width

/-- A fixed text has a width of its own and is padded with NULs. Tags that mean nothing are kept. -/
inductive SlotType
  | signed (width : Width)
  | unsigned (width : Width)
  | rect
  | pascal
  | fixed (width : UInt16)
  | terminated
  | hexData
  | invalid (tag : UInt16)
  deriving DecidableEq, Repr

namespace SlotType

/-- The family in the high nibble, and the width or zero in the twelve bits below. -/
def ofTag (tag : UInt16) : SlotType :=
  let width := tag.toNat % 0x1000
  match tag.toNat / 0x1000 with
  | 0 => ((Width.ofBytes? width).map signed).getD (invalid tag)
  | 1 => ((Width.ofBytes? width).map unsigned).getD (invalid tag)
  | 2 => if width = 0 then rect else invalid tag
  | 3 => if width = 0 then pascal else invalid tag
  | 4 => if width = 0 then invalid tag else fixed (UInt16.ofNat width)
  | 5 => if width = 0 then terminated else invalid tag
  | 6 => if width = 0 then hexData else invalid tag
  | _ => invalid tag

/-- Only the low twelve bits of a fixed width go into the tag. -/
def tag : SlotType → UInt16
  | signed width => UInt16.ofNat width.bytes
  | unsigned width => UInt16.ofNat (0x1000 + width.bytes)
  | rect => 0x2000
  | pascal => 0x3000
  | fixed width => UInt16.ofNat (0x4000 + width.toNat % 0x1000)
  | terminated => 0x5000
  | hexData => 0x6000
  | invalid tag => tag

/-- How many bytes every value of the type takes, or zero where that depends on the value. -/
def width : SlotType → Nat
  | signed width => width.bytes
  | unsigned width => width.bytes
  | rect => 8
  | fixed width => width.toNat
  | pascal | terminated | hexData | invalid _ => 0

/-- The width, where every value of the type has the same. -/
def fixedSize? : SlotType → Option Nat
  | pascal | terminated | hexData | invalid _ => none
  | type => some type.width

def isSigned : SlotType → Bool
  | signed _ => true
  | _ => false

def isUnsigned : SlotType → Bool
  | unsigned _ => true
  | _ => false

def isInteger (type : SlotType) : Bool := type.isSigned || type.isUnsigned

def isText : SlotType → Bool
  | pascal | fixed _ | terminated => true
  | _ => false

def isKnown : SlotType → Bool
  | invalid _ => false
  | _ => true

/-- A text of this type ends at its first NUL when it is read, so it may hold none. -/
def endsAtNul : SlotType → Bool
  | fixed _ | terminated => true
  | _ => false

/-- The length that a text of this type carries with it, given how many bytes it takes. -/
def lengthHint (type : SlotType) (bytes : Nat) : Nat :=
  match type with
  | pascal => bytes
  | fixed width => width.toNat
  | _ => 0

def mnemonic : SlotType → String
  | signed width => "D" ++ width.mnemonic
  | unsigned width => "H" ++ width.mnemonic
  | rect => "RECT"
  | pascal => "PSTR"
  | fixed width => String.ofList ('C' :: Numeral.upperHex 3 width.toNat)
  | terminated => "CSTR"
  | hexData => "HEXD"
  | invalid tag => String.ofList ('?' :: Numeral.upperHex 4 tag.toNat)

/-- The types whose mnemonic is a fixed word. -/
def named : List SlotType :=
  [signed .byte, signed .word, signed .long, signed .quad, unsigned .byte, unsigned .word,
    unsigned .long, unsigned .quad, rect, pascal, terminated, hexData]

/-- The type of a mnemonic. A fixed width is written `C` and three bytes that read as a hexadecimal
numeral, which leaves room for a plus sign; it is not zero. -/
def ofMnemonic? (text : String) : Option SlotType :=
  match named.find? fun type ↦ type.mnemonic = text with
  | some type => some type
  | none =>
    match text.toList with
    | 'C' :: digits =>
      if text.utf8ByteSize = 4 then
        match Numeral.readNat 16 digits with
        | some (n + 1) => some (fixed (UInt16.ofNat (n + 1)))
        | _ => none
      else none
    | _ => none

end SlotType

end ResourceLang
