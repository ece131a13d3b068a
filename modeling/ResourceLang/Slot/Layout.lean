import ResourceLang.Slot.Value

/-!
One value as bytes. Integers are big-endian, signed ones in two's complement, and texts are written
in UTF-8. Reading gives back the bytes after the slot, so slots can be read one after another.
-/

set_option autoImplicit false
set_option relaxedAutoImplicit false

namespace ResourceLang.Layout

open Text

/-- The most bytes that a slot with a length byte holds. -/
def maxCounted : Nat := 255

/-- The low `width` bytes of `n`, the most significant first. -/
def bigEndian : (width : Nat) → Nat → List UInt8
  | 0, _ => []
  | width + 1, n => bigEndian width (n / 256) ++ [UInt8.ofNat (n % 256)]

def ofBigEndian (bs : List UInt8) : Nat := bs.foldl (fun n b ↦ n * 256 + b.toNat) 0

def bytesOfRect (rect : Rect) : List UInt8 :=
  bigEndian 2 rect.top.toBitVec.toNat ++ bigEndian 2 rect.left.toBitVec.toNat ++
    bigEndian 2 rect.bottom.toBitVec.toNat ++ bigEndian 2 rect.right.toBitVec.toNat

/-- The bytes behind a length byte. -/
def counted (bs : List UInt8) : List UInt8 := UInt8.ofNat bs.length :: bs

/-- The part of a text that goes into a slot: whole characters within the room there is. A fixed
slot keeps a byte for a NUL. -/
def kept : SlotType → List Char → List Char
  | .pascal, cs => Utf8.prefixWithin maxCounted cs
  | .fixed width, cs => Utf8.prefixWithin (width.toNat - 1) cs
  | _, cs => cs

/-- Why a value cannot be laid out as a type. -/
inductive EncodeFault
  | unsupported
  | mismatch
  | embeddedNul (text : String)
  deriving DecidableEq, Repr

/-- The bytes of a text, once it is known to fit. -/
def bytesOfText (type : SlotType) (text : String) : Except EncodeFault (List UInt8) :=
  if type.endsAtNul ∧ '\x00' ∈ text.toList then .error (.embeddedNul text)
  else
    let body := Utf8.encode (kept type text.toList)
    match type with
    | .pascal => .ok (counted body)
    | .fixed width => .ok (body.rightpad width.toNat 0)
    | _ => .ok (body ++ [0])

def encode (type : SlotType) (value : Value) : Except EncodeFault (List UInt8) :=
  match type, value with
  | .invalid _, _ => .error .unsupported
  | type, value =>
    if value.fits type then
      match value with
      | .unsigned width n => .ok (bigEndian width.bytes n.toNat)
      | .signed width n => .ok (bigEndian width.bytes n.toNat)
      | .rect rect => .ok (bytesOfRect rect)
      | .string text _ => bytesOfText type text
      | .bytes data => .ok (counted (data.take maxCounted))
    else .error .mismatch

/-- What a slot with a length byte has to drop of a value: the bytes it takes and those kept. -/
def truncation? (type : SlotType) (value : Value) : Option (Nat × Nat) :=
  let sizes :=
    match type, value with
    | .pascal, .string text _ => some (text.utf8ByteSize, Utf8.size (kept .pascal text.toList))
    | .hexData, .bytes data => some (data.length, min data.length maxCounted)
    | _, _ => none
  sizes.filter fun size ↦ size.2 < size.1

inductive DecodeFault
  | unsupported
  | truncated
  deriving DecidableEq, Repr

/-- The first `count` bytes and the rest, if there are as many. -/
def split (count : Nat) (bs : List UInt8) : Except DecodeFault (List UInt8 × List UInt8) :=
  let front := bs.take count
  if front.length = count then .ok (front, bs.drop count) else .error .truncated

/-- The bytes that a length byte in front counts, and the rest. -/
def splitCounted : List UInt8 → Except DecodeFault (List UInt8 × List UInt8)
  | [] => .error .truncated
  | count :: bs => split count.toNat bs

def edge (bs : List UInt8) : Int16 := Int16.ofBitVec (BitVec.ofNat 16 (ofBigEndian bs))

def rectOfBytes (bs : List UInt8) : Rect where
  top := edge (bs.take 2)
  left := edge ((bs.drop 2).take 2)
  bottom := edge ((bs.drop 4).take 2)
  right := edge (bs.drop 6)

/-- The value at the front of the bytes, and the bytes after its slot. A terminated text ends at its
NUL, which is passed over, or where the bytes end. -/
def decode (type : SlotType) (bs : List UInt8) : Except DecodeFault (Value × List UInt8) :=
  match type with
  | .invalid _ => .error .unsupported
  | .unsigned width => do
    let (front, rest) ← split width.bytes bs
    return (.unsigned width (BitVec.ofNat width.bits (ofBigEndian front)), rest)
  | .signed width => do
    let (front, rest) ← split width.bytes bs
    return (.signed width (BitVec.ofNat width.bits (ofBigEndian front)), rest)
  | .rect => do
    let (front, rest) ← split 8 bs
    return (.rect (rectOfBytes front), rest)
  | .pascal => do
    let (front, rest) ← splitCounted bs
    return (.string (Utf8.lossy front) front.length, rest)
  | .hexData => do
    let (front, rest) ← splitCounted bs
    return (.bytes front, rest)
  | .fixed width => do
    let (front, rest) ← split width.toNat bs
    return (.string (Utf8.lossy (front.takeWhile (· ≠ 0))) width.toNat, rest)
  | .terminated =>
    .ok (.string (Utf8.lossy (bs.takeWhile (· ≠ 0))) 0, (bs.dropWhile (· ≠ 0)).drop 1)

@[simp]
theorem length_bigEndian (width n : Nat) : (bigEndian width n).length = width := by
  induction width generalizing n with
  | zero => rfl
  | succ width ih => simp [bigEndian, ih]

theorem ofBigEndian_concat (bs : List UInt8) (b : UInt8) :
    ofBigEndian (bs ++ [b]) = ofBigEndian bs * 256 + b.toNat := by
  simp [ofBigEndian]

theorem ofBigEndian_bigEndian_succ (width n : Nat) :
    ofBigEndian (bigEndian (width + 1) n) =
      ofBigEndian (bigEndian width (n / 256)) * 256 + n % 256 := by
  rw [bigEndian, ofBigEndian_concat]
  simp

/-- A word is read back from its bytes. -/
theorem ofNat_ofBigEndian_bigEndian {width : Width} (n : BitVec width.bits) :
    BitVec.ofNat width.bits (ofBigEndian (bigEndian width.bytes n.toNat)) = n := by
  have hmod : ∀ count m, ofBigEndian (bigEndian count m) = m % 256 ^ count := by
    intro count
    induction count with
    | zero => simp [bigEndian, ofBigEndian, Nat.mod_one]
    | succ count ih =>
      intro m
      rw [ofBigEndian_bigEndian_succ, ih, Nat.pow_succ', Nat.mod_mul, Nat.mul_comm, Nat.add_comm]
  have hbits : 256 ^ width.bytes = 2 ^ width.bits := by rw [Width.bits, Nat.pow_mul]
  rw [hmod, hbits, Nat.mod_eq_of_lt n.isLt]
  simp

end ResourceLang.Layout
