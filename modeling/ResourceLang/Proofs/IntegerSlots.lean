import ResourceLang.Proofs.NumericTokens
import ResourceLang.Proofs.TypedSlots

/-!
Numbers in integer slots. A literal is stored as what it denotes or not at all: a slot takes the
numbers of its range, and a signed slot a hexadecimal literal as a pattern of its bits. The bytes of
the slot are the number in base 256, a negative one in two's complement.
-/

set_option autoImplicit false
set_option relaxedAutoImplicit false

namespace ResourceLang.Proofs.IntegerSlots

open Layout SlotImage TemplateRoundTrip NumericTokens TypedSlots

/-- Whether a literal denotes a number that a slot of the type has room for. -/
def Admits : SlotType → Written → Prop
  | .signed width, .hexadecimal digits => value 16 digits < 2 ^ width.bits
  | .signed width, written =>
    -2 ^ (width.bits - 1) ≤ written.number ∧ written.number < 2 ^ (width.bits - 1)
  | .unsigned _, .negative _ => False
  | .unsigned width, written => written.number < 2 ^ width.bits
  | _, _ => False

/-- What a slot of the type has of a literal: the number, or the two's complement reading of a bit
pattern. -/
def kept : SlotType → Written → Int
  | .signed width, .hexadecimal digits =>
    if value 16 digits < 2 ^ (width.bits - 1) then value 16 digits
      else value 16 digits - 2 ^ width.bits
  | _, written => written.number

def number? : Value → Option Int
  | .signed _ word => some word.toInt
  | .unsigned _ word => some word.toNat
  | _ => none

/-- Bytes as the digits of a number, the most significant first. -/
def numberOfBytes (bytes : List UInt8) : Nat := Nat.ofDigits 256 (bytes.map UInt8.toNat).reverse

/-- The value that a slot has of a literal, and the bytes that the slot is written as. -/
structure Stored (type : SlotType) (written : Written) (value : Value) (bytes : List UInt8) :
    Prop where
  fits : value.fits type = true
  number : number? value = some (kept type written)
  length : bytes.length = type.width
  bytes : (numberOfBytes bytes : Int) = written.number % 2 ^ (8 * type.width)

/-- A value that a literal stands for in an integer slot. -/
inductive Denotes : SlotType → Written → Value → Prop
  | unsigned {width : Width} {word : BitVec width.bits} {written : Written}
      (hsign : ∀ digits, written ≠ .negative digits) (h : (word.toNat : Int) = written.number) :
    Denotes (.unsigned width) written (.unsigned width word)
  | signed {width : Width} {word : BitVec width.bits} {written : Written}
      (hdecimal : ∀ digits, written ≠ .hexadecimal digits) (h : word.toInt = written.number) :
    Denotes (.signed width) written (.signed width word)
  | pattern {width : Width} {word : BitVec width.bits} {digits : List Char}
      (h : word.toNat = value 16 digits) :
    Denotes (.signed width) (.hexadecimal digits) (.signed width word)

variable {lexeme : Lexeme} {written : Written} {width : Width} {type : SlotType}

/-! ### Literals as values -/

theorem toOption_eq_some_iff {ε α : Type} {result : Except ε α} {a : α} :
    result.toOption = some a ↔ result = .ok a := by
  cases result <;> simp [Except.toOption]

theorem toNat_lt_size (word : BitVec width.bits) : word.toNat < UInt64.size := by
  have hbits : 2 ^ width.bits ≤ UInt64.size := by cases width <;> decide
  exact word.isLt.trans_le hbits

theorem toInt_mem_range (word : BitVec width.bits) :
    Int64.minValue.toInt ≤ word.toInt ∧ word.toInt ≤ Int64.maxValue.toInt := by
  have hlow := BitVec.le_toInt word
  have hhigh := BitVec.toInt_lt (x := word)
  have hmin : Int64.minValue.toInt ≤ -2 ^ (width.bits - 1) := by cases width <;> decide
  have hmax : 2 ^ (width.bits - 1) ≤ Int64.maxValue.toInt + 1 := by cases width <;> decide
  omega

theorem unsigned_eq_ok_iff (hcarries : Carries lexeme written) {result : Value} :
    Literal.unsigned width lexeme = .ok result ↔ Denotes (.unsigned width) written result := by
  constructor
  · intro h
    unfold Literal.unsigned at h
    split at h
    · rename_i n hn
      obtain ⟨hnumber, _, hsign⟩ := hcarries.unsignedNumber_eq_ok_iff.mp hn
      split at h
      · rename_i word hword
        obtain rfl := Except.ok.inj h
        rw [Width.wordOfNat?_eq_some_iff] at hword
        exact .unsigned hsign (hword ▸ hnumber)
      · cases h
    · split at h <;> cases h
  · rintro @⟨_, word, _, hsign, hword⟩
    have hn : lexeme.unsignedNumber = .ok word.toNat :=
      hcarries.unsignedNumber_eq_ok_iff.mpr ⟨hword, toNat_lt_size word, hsign⟩
    rw [Literal.unsigned, hn]
    dsimp only
    rw [Width.wordOfNat?_eq_some_iff.mpr rfl]

/-- Where the text begins as a hexadecimal literal does, a signed slot has a number for a pattern of
its bits. -/
theorem signedWord?_of_hexDigits? (hcarries : Carries lexeme written)
    (hhex : Lexeme.hexDigits? lexeme.text.toList ≠ none) {word : BitVec width.bits} :
    Literal.signedWord? width lexeme = some word ↔
      (word.toNat : Int) = written.number ∧ ∀ digits, written ≠ .negative digits := by
  obtain ⟨digits, hdigits⟩ := Option.ne_none_iff_exists'.mp hhex
  rw [Literal.signedWord?, hdigits, Option.bind_eq_some_iff]
  constructor
  · rintro ⟨n, hn, hword⟩
    rw [toOption_eq_some_iff, hcarries.unsignedNumber_eq_ok_iff] at hn
    rw [Width.wordOfNat?_eq_some_iff] at hword
    exact ⟨hword ▸ hn.1, hn.2.2⟩
  · rintro ⟨hword, hsign⟩
    refine ⟨word.toNat, ?_, Width.wordOfNat?_eq_some_iff.mpr rfl⟩
    rw [toOption_eq_some_iff, hcarries.unsignedNumber_eq_ok_iff]
    exact ⟨hword, toNat_lt_size word, hsign⟩

theorem signedWord?_of_decimal (hcarries : Carries lexeme written)
    (hhex : Lexeme.hexDigits? lexeme.text.toList = none)
    (hdecimal : ∀ digits, written ≠ .hexadecimal digits) {word : BitVec width.bits} :
    Literal.signedWord? width lexeme = some word ↔ word.toInt = written.number := by
  rw [Literal.signedWord?, hhex, Option.bind_eq_some_iff]
  constructor
  · rintro ⟨n, hn, hword⟩
    rw [toOption_eq_some_iff, hcarries.number_eq_ok_iff hdecimal] at hn
    rw [Width.wordOfInt?_eq_some_iff] at hword
    exact hword.trans hn.1
  · intro hword
    refine ⟨word.toInt, ?_, Width.wordOfInt?_eq_some_iff.mpr rfl⟩
    rw [toOption_eq_some_iff, hcarries.number_eq_ok_iff hdecimal]
    exact ⟨hword, toInt_mem_range word⟩

theorem signedWord?_of_writes (hwrites : Writes lexeme written)
    (hdecimal : ∀ digits, written ≠ .hexadecimal digits) {word : BitVec width.bits} :
    Literal.signedWord? width lexeme = some word ↔ word.toInt = written.number := by
  refine signedWord?_of_decimal hwrites.carries ?_ hdecimal
  rw [hwrites.text, hexDigits?_eq_none hwrites.legal hdecimal]

theorem signed_eq_ok_iff_signedWord? {result : Value} :
    Literal.signed width lexeme = .ok result ↔
      ∃ word, Literal.signedWord? width lexeme = some word ∧ result = .signed width word := by
  unfold Literal.signed
  cases Literal.signedWord? width lexeme with
  | none => simp
  | some word => simp [eq_comm]

theorem signed_eq_ok_iff (hwrites : Writes lexeme written) {result : Value} :
    Literal.signed width lexeme = .ok result ↔ Denotes (.signed width) written result := by
  rw [signed_eq_ok_iff_signedWord?]
  by_cases hhex : ∃ digits, written = .hexadecimal digits
  · obtain ⟨digits, rfl⟩ := hhex
    have hword : ∀ word, Literal.signedWord? width lexeme = some word ↔
        word.toNat = value 16 digits := by
      intro word
      rw [signedWord?_of_hexDigits? hwrites.carries (by rw [hwrites.text]; exact nofun),
        and_iff_left nofun]
      exact Int.ofNat_inj
    simp only [hword]
    constructor
    · rintro ⟨word, hnumber, rfl⟩
      exact .pattern hnumber
    · intro hdenotes
      cases hdenotes with
      | signed hdecimal _ => exact absurd rfl (hdecimal digits)
      | pattern hnumber => exact ⟨_, hnumber, rfl⟩
  · have hdecimal : ∀ digits, written ≠ .hexadecimal digits := not_exists.mp hhex
    simp only [signedWord?_of_writes hwrites hdecimal]
    constructor
    · rintro ⟨word, hnumber, rfl⟩
      exact .signed hdecimal hnumber
    · intro hdenotes
      cases hdenotes with
      | signed _ hnumber => exact ⟨_, hnumber, rfl⟩
      | pattern _ => exact absurd rfl (hdecimal _)

theorem toValue_eq_ok_iff (hwrites : Writes lexeme written) (htype : type.isInteger = true)
    {result : Value} : Literal.toValue type lexeme = .ok result ↔ Denotes type written result := by
  cases type with
  | unsigned width =>
    rw [Literal.toValue, if_pos hwrites.isNumeric]
    exact unsigned_eq_ok_iff hwrites.carries
  | signed width =>
    rw [Literal.toValue, if_pos hwrites.isNumeric]
    exact signed_eq_ok_iff hwrites
  | _ => cases htype

/-! ### Ranges -/

theorem exists_toNat_eq_iff {n : Nat} :
    (∃ word : BitVec width.bits, word.toNat = n) ↔ n < 2 ^ width.bits := by
  constructor
  · rintro ⟨word, rfl⟩
    exact word.isLt
  · intro hn
    exact ⟨BitVec.ofNat width.bits n, by rw [BitVec.toNat_ofNat, Nat.mod_eq_of_lt hn]⟩

theorem exists_toInt_eq_iff {n : Int} :
    (∃ word : BitVec width.bits, word.toInt = n) ↔ -2 ^ (width.bits - 1) ≤ n ∧
      n < 2 ^ (width.bits - 1) := by
  constructor
  · rintro ⟨word, rfl⟩
    exact ⟨BitVec.le_toInt word, BitVec.toInt_lt⟩
  · rintro ⟨hlow, hhigh⟩
    have hbits : 0 < width.bits := by cases width <;> decide
    exact ⟨BitVec.ofInt width.bits n, BitVec.toInt_ofInt_eq_self hbits hlow hhigh⟩

theorem admits_unsigned_iff :
    Admits (.unsigned width) written ↔
      (∀ digits, written ≠ .negative digits) ∧ written.number < 2 ^ width.bits := by
  cases written <;> simp [Admits]

theorem admits_signed_iff (hdecimal : ∀ digits, written ≠ .hexadecimal digits) :
    Admits (.signed width) written ↔
      -2 ^ (width.bits - 1) ≤ written.number ∧ written.number < 2 ^ (width.bits - 1) := by
  cases written with
  | hexadecimal digits => exact absurd rfl (hdecimal digits)
  | _ => rfl

theorem exists_natCast_eq_number (hsign : ∀ digits, written ≠ .negative digits) :
    ∃ n : Nat, (n : Int) = written.number := by
  cases written with
  | negative digits => exact absurd rfl (hsign digits)
  | _ => exact ⟨_, rfl⟩

theorem exists_denotes_unsigned_iff :
    (∃ result, Denotes (.unsigned width) written result) ↔ Admits (.unsigned width) written := by
  rw [admits_unsigned_iff]
  constructor
  · rintro ⟨_, hdenotes⟩
    cases hdenotes with
    | @unsigned _ word _ hsign hword =>
      refine ⟨hsign, ?_⟩
      rw [← hword]
      exact_mod_cast word.isLt
  · rintro ⟨hsign, hlt⟩
    obtain ⟨n, hn⟩ := exists_natCast_eq_number hsign
    rw [← hn] at hlt
    obtain ⟨word, rfl⟩ := exists_toNat_eq_iff.mpr (by exact_mod_cast hlt)
    exact ⟨.unsigned width word, .unsigned hsign hn⟩

theorem exists_denotes_hexadecimal_iff {digits : List Char} :
    (∃ result, Denotes (.signed width) (.hexadecimal digits) result) ↔
      Admits (.signed width) (.hexadecimal digits) := by
  constructor
  · rintro ⟨_, hdenotes⟩
    cases hdenotes with
    | signed hdecimal _ => exact absurd rfl (hdecimal digits)
    | pattern hword => exact exists_toNat_eq_iff.mp ⟨_, hword⟩
  · intro hlt
    obtain ⟨word, hword⟩ := exists_toNat_eq_iff.mpr hlt
    exact ⟨.signed width word, .pattern hword⟩

theorem exists_denotes_signed_iff (hdecimal : ∀ digits, written ≠ .hexadecimal digits) :
    (∃ result, Denotes (.signed width) written result) ↔ Admits (.signed width) written := by
  rw [admits_signed_iff hdecimal]
  constructor
  · rintro ⟨_, hdenotes⟩
    cases hdenotes with
    | signed _ hword => exact exists_toInt_eq_iff.mp ⟨_, hword⟩
    | pattern _ => exact absurd rfl (hdecimal _)
  · intro hrange
    obtain ⟨word, hword⟩ := exists_toInt_eq_iff.mpr hrange
    exact ⟨.signed width word, .signed hdecimal hword⟩

/-- A literal stands for a value exactly if it denotes a number that there is room for. -/
theorem exists_denotes_iff (htype : type.isInteger = true) :
    (∃ result, Denotes type written result) ↔ Admits type written := by
  cases type with
  | unsigned width => exact exists_denotes_unsigned_iff
  | signed width =>
    by_cases hhex : ∃ digits, written = .hexadecimal digits
    · obtain ⟨digits, rfl⟩ := hhex
      exact exists_denotes_hexadecimal_iff
    · exact exists_denotes_signed_iff (not_exists.mp hhex)
  | _ => cases htype

/-! ### Bytes -/

theorem numberOfBytes_concat (bytes : List UInt8) (b : UInt8) :
    numberOfBytes (bytes ++ [b]) = b.toNat + 256 * numberOfBytes bytes := by
  simp [numberOfBytes, Nat.ofDigits_cons]

theorem numberOfBytes_bigEndian (count n : Nat) :
    numberOfBytes (bigEndian count n) = n % 256 ^ count := by
  induction count generalizing n with
  | zero => simp [numberOfBytes, bigEndian, Nat.mod_one]
  | succ count ih =>
    rw [bigEndian, numberOfBytes_concat, ih, Nat.pow_succ', Nat.mod_mul]
    simp

theorem numberOfBytes_bigEndian_toNat (word : BitVec width.bits) :
    numberOfBytes (bigEndian width.bytes word.toNat) = word.toNat := by
  have hbits : 256 ^ width.bytes = 2 ^ width.bits := by rw [Width.bits, Nat.pow_mul]
  rw [numberOfBytes_bigEndian, hbits, Nat.mod_eq_of_lt word.isLt]

theorem toNat_emod (word : BitVec width.bits) :
    (word.toNat : Int) % 2 ^ width.bits = word.toNat := by
  exact_mod_cast Nat.mod_eq_of_lt word.isLt

theorem toInt_emod (word : BitVec width.bits) : word.toInt % 2 ^ width.bits = word.toNat := by
  have hmod : word.toInt % (2 ^ width.bits : Nat) = word.toNat := by
    rw [BitVec.toInt_eq_toNat_bmod, Int.bmod_emod]
    exact_mod_cast toNat_emod word
  exact_mod_cast hmod

theorem kept_signed (hdecimal : ∀ digits, written ≠ .hexadecimal digits) :
    kept (.signed width) written = written.number := by
  cases written with
  | hexadecimal digits => exact absurd rfl (hdecimal digits)
  | _ => rfl

theorem two_mul_half (width : Width) : 2 * 2 ^ (width.bits - 1) = 2 ^ width.bits := by
  cases width <;> rfl

/-- A pattern of bits with the top one set stands for a negative number. -/
theorem toInt_of_toNat {word : BitVec width.bits} {n : Nat} (h : word.toNat = n) :
    word.toInt = if n < 2 ^ (width.bits - 1) then (n : Int) else n - 2 ^ width.bits := by
  have hhalf : 2 * n < 2 ^ width.bits ↔ n < 2 ^ (width.bits - 1) := by
    rw [← two_mul_half]
    omega
  rw [BitVec.toInt_eq_toNat_cond, h]
  simp only [hhalf]
  push_cast
  rfl

/-- The bytes of a slot are those of its word. -/
theorem stored_of_word {result : Value} {word : BitVec width.bits} (hfits : result.fits type = true)
    (hnumber : number? result = some (kept type written)) (hwidth : type.width = width.bytes)
    (hword : (word.toNat : Int) = written.number % 2 ^ width.bits) :
    Stored type written result (bigEndian width.bytes word.toNat) where
  fits := hfits
  number := hnumber
  length := by rw [length_bigEndian, hwidth]
  bytes := by
    rw [hwidth, numberOfBytes_bigEndian_toNat]
    exact hword

theorem exists_stored_of_denotes {result : Value} (h : Denotes type written result) :
    ∃ bytes, Stored type written result bytes ∧ encode type result = .ok bytes := by
  cases h with
  | @unsigned width word _ hsign hword =>
    refine ⟨_, stored_of_word ?_ ?_ rfl ?_, encode_of_image (.unsigned width word)⟩
    · simp [Value.fits]
    · exact congrArg some hword
    · rw [← hword, toNat_emod]
  | @signed width word _ hdecimal hword =>
    refine ⟨_, stored_of_word ?_ ?_ rfl ?_, encode_of_image (.signed width word)⟩
    · simp [Value.fits]
    · rw [kept_signed hdecimal, ← hword]
      rfl
    · rw [← hword, toInt_emod]
  | @pattern width word digits hword =>
    refine ⟨_, stored_of_word ?_ ?_ rfl ?_, encode_of_image (.signed width word)⟩
    · simp [Value.fits]
    · exact congrArg some (toInt_of_toNat hword)
    · show (word.toNat : Int) = (value 16 digits : Int) % 2 ^ width.bits
      rw [← hword, toNat_emod]

/-! ### Writing -/

/-- Every integer or percentage token of a lexer is written in one of the three ways. An integer
slot takes it exactly if it has room for what the token denotes, which is then stored and written
out as it is. Otherwise nothing is changed. -/
theorem setLiteral_of_lexed {token : Token} (htoken : Lexed token)
    (hkind : token.kind = .integer ∨ token.kind = .percentage) (resource : Resource)
    {field : String} {index : Nat} {slot : Slot}
    (hslot : resource.template.find? field = some (index, slot))
    (hinteger : slot.type.isInteger = true) :
    ∃ written, Writes token.lexeme written ∧
      (Admits slot.type written →
        ∃ result bytes, Stored slot.type written result bytes ∧ slot.encode result = .ok bytes ∧
          resource.setLiteral field token = (resource.setAt index result, .ok ())) ∧
      (¬ Admits slot.type written →
        ∃ error, resource.setLiteral field token = (resource, .error error)) := by
  obtain ⟨written, hwrites⟩ := exists_writes_of_lexical htoken.lexical hkind
  refine ⟨written, hwrites, ?_, ?_⟩
  · intro hadmits
    obtain ⟨result, hdenotes⟩ := (exists_denotes_iff hinteger).mpr hadmits
    obtain ⟨bytes, hstored, hbytes⟩ := exists_stored_of_denotes hdenotes
    refine ⟨result, bytes, hstored, ?_, ?_⟩
    · exact slot_encode_eq_ok_iff.mpr (encode_eq_ok_iff.mp hbytes)
    · exact setLiteral_of_toValue hslot ((toValue_eq_ok_iff hwrites hinteger).mpr hdenotes)
  · intro hrefused
    refine setLiteral_of_forall_ne hslot fun result hresult ↦ hrefused ?_
    have hdenotes := (toValue_eq_ok_iff hwrites hinteger).mp hresult
    exact (exists_denotes_iff hinteger).mp ⟨result, hdenotes⟩

/-- A hexadecimal literal whose number a slot of two bytes has the bits for, but not the range. -/
def patterned : Token := ⟨.plain .integer "0x0fF80", ⟨1, 1, 1⟩, none⟩

theorem setLiteral_of_lexed_patterned :
    Lexed patterned ∧ (patterned.kind = .integer ∨ patterned.kind = .percentage) ∧
      cargo.find? "mass" = some (0, ⟨.synthetic .identifier "mass", .signed .word⟩) ∧
        ∃ result bytes, (Resource.blank cargo "CRGO" 128 "").setLiteral "mass" patterned =
            ((Resource.blank cargo "CRGO" 128 "").setAt 0 result, .ok ()) ∧
          number? result = some (-128) ∧ bytes.length = 2 ∧ numberOfBytes bytes = 0xFF80 ∧
            encode (.signed .word) result = .ok bytes := by
  have hlexed : Lexed patterned :=
    ⟨none, " 0X0fF80", 0, [patterned], by decide +kernel, List.mem_singleton_self _⟩
  have hmass : cargo.find? "mass" = some (0, ⟨.synthetic .identifier "mass", .signed .word⟩) := rfl
  refine ⟨hlexed, .inl rfl, hmass, ?_⟩
  obtain ⟨written, hwrites, haccepted, _⟩ :=
    setLiteral_of_lexed hlexed (.inl rfl) (.blank cargo "CRGO" 128 "") hmass rfl
  have hwritten : written = .hexadecimal "0fF80".toList := by
    rw [eq_ofText hwrites.legal, ← hwrites.text]
    rfl
  subst hwritten
  have hvalue : value 16 "0fF80".toList = 0xFF80 := by decide +kernel
  have hadmits : Admits (.signed .word) (.hexadecimal "0fF80".toList) := by
    rw [Admits, hvalue]
    decide
  obtain ⟨result, bytes, hstored, hbytes, hset⟩ := haccepted hadmits
  refine ⟨result, bytes, hset, ?_, hstored.length, ?_, ?_⟩
  · rw [hstored.number, kept, hvalue]
    rfl
  · have hnumber := hstored.bytes
    rw [Written.number, hvalue] at hnumber
    exact Int.ofNat.inj hnumber
  · exact encode_eq_ok_iff.mpr (slot_encode_eq_ok_iff.mp hbytes)

end ResourceLang.Proofs.IntegerSlots
