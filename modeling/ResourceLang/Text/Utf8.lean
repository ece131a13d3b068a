/-!
UTF-8 over lists of bytes. `bytes` writes a text, `prefixWithin` cuts one to a budget of bytes
without splitting a character, and `lossy` reads any bytes at all: each maximal ill-formed part
becomes one U+FFFD and every well-formed character is kept.
-/

set_option autoImplicit false
set_option relaxedAutoImplicit false

namespace ResourceLang.Text.Utf8

def encode (cs : List Char) : List UInt8 := cs.flatMap String.utf8EncodeChar

def bytes (text : String) : List UInt8 := encode text.toList

/-- How many bytes the characters take. -/
def size : List Char → Nat
  | [] => 0
  | c :: cs => c.utf8Size + size cs

/-- The longest prefix of whole characters that takes at most `budget` bytes. -/
def prefixWithin (budget : Nat) : List Char → List Char
  | [] => []
  | c :: cs => if c.utf8Size ≤ budget then c :: prefixWithin (budget - c.utf8Size) cs else []

/-- The well-formed character at the front, if there is one; it takes at most four bytes. -/
def front? (bs : List UInt8) : Option Char := (bs.take 4).toByteArray.utf8DecodeChar? 0

def isContinuation (b : UInt8) : Bool := 0x80 ≤ b && b ≤ 0xBF

/-- Whether `b` may stand second in a character of three or four bytes that `a` leads. -/
def canFollow (a b : UInt8) : Bool :=
  if a = 0xE0 then 0xA0 ≤ b && b ≤ 0xBF
  else if a = 0xED then 0x80 ≤ b && b ≤ 0x9F
  else if a = 0xF0 then 0x90 ≤ b && b ≤ 0xBF
  else if a = 0xF4 then 0x80 ≤ b && b ≤ 0x8F
  else 0xE1 ≤ a && a ≤ 0xF3 && isContinuation b

/-- Where no well-formed character begins at `a`, how many of the bytes after it could still have
belonged to one: the ill-formed part ends before the first byte that rules a character out. -/
def brokenTail (a : UInt8) : List UInt8 → Nat
  | [] => 0
  | [b] => if canFollow a b then 1 else 0
  | b :: c :: _ =>
    if canFollow a b then if 0xF0 ≤ a && isContinuation c then 2 else 1 else 0

/-- Characters read so far are held in reverse. -/
def lossyFrom (done : List Char) : List UInt8 → List Char
  | [] => done.reverse
  | b :: bs =>
    match front? (b :: bs) with
    | some c => lossyFrom (c :: done) (bs.drop (c.utf8Size - 1))
    | none => lossyFrom ('\uFFFD' :: done) (bs.drop (brokenTail b bs))
termination_by bs => bs.length
decreasing_by all_goals simp only [List.length_drop, List.length_cons]; omega

def lossy (bs : List UInt8) : String := String.ofList (lossyFrom [] bs)

theorem encode_append (cs ds : List Char) : encode (cs ++ ds) = encode cs ++ encode ds := by
  simp [encode]

theorem length_encode (cs : List Char) : (encode cs).length = size cs := by
  induction cs with
  | nil => rfl
  | cons c cs ih => simp_all [encode, size]

theorem prefixWithin_isPrefix (budget : Nat) (cs : List Char) : prefixWithin budget cs <+: cs := by
  induction cs generalizing budget with
  | nil => simp [prefixWithin]
  | cons c cs ih =>
    unfold prefixWithin
    split
    · exact List.cons_prefix_cons.2 ⟨rfl, ih _⟩
    · exact List.nil_prefix

theorem size_prefixWithin_le (budget : Nat) (cs : List Char) :
    size (prefixWithin budget cs) ≤ budget := by
  induction cs generalizing budget with
  | nil => simp [prefixWithin, size]
  | cons c cs ih =>
    unfold prefixWithin
    split
    · have := ih (budget - c.utf8Size)
      simp only [size]
      omega
    · simp [size]

end ResourceLang.Text.Utf8
