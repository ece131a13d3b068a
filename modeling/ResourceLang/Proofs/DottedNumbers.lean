import ResourceLang.Proofs.IntegerSlots

/-!
Resource ids in integer slots. The number of a resource id is its last component, whatever the names
in front. But a signed slot tells a hexadecimal literal by how the whole text begins, and a name may
begin as one does. The number is then taken as a pattern of bits, so what is stored is that of an
integer literal of the same digits unless the two readings part: a pattern with the top bit set
stands for another number, and none has a minus sign.
-/

set_option autoImplicit false
set_option relaxedAutoImplicit false

namespace ResourceLang.Proofs.DottedNumbers

open LexemeGrammar NumericTokens TypedSlots IntegerSlots TemplateRoundTrip

/-- An integer token of the number that a resource id ends in. -/
structure EndsIn (id number : Token) : Prop where
  dotted : id.kind = .resourceId
  plain : number.kind = .integer
  last : id.components.getLast? = some number.text

/-- The resource ids that a slot does not take as their number: those that begin as a hexadecimal
literal does, if the number as a pattern of the slot's bits has the top one set, or has a minus sign
and would find room. -/
inductive Strays : SlotType → Token → Written → Prop
  | pattern {width : Width} {id : Token} {digits : List Char}
      (hhex : Lexeme.hexDigits? id.text.toList ≠ none)
      (hlow : 2 ^ (width.bits - 1) ≤ value 10 digits) (hhigh : value 10 digits < 2 ^ width.bits) :
    Strays (.signed width) id (.decimal digits)
  | minus {width : Width} {id : Token} {digits : List Char}
      (hhex : Lexeme.hexDigits? id.text.toList ≠ none)
      (hroom : value 10 digits ≤ 2 ^ (width.bits - 1)) :
    Strays (.signed width) id (.negative digits)

variable {id number : Token} {written : Written} {width : Width} {type : SlotType}

/-! ### The number of a resource id -/

theorem exists_isDecimal_of_getLast? {lexeme : Lexeme} {text : String} (h : Lexical lexeme)
    (hkind : lexeme.kind = .resourceId) (hlast : lexeme.components.getLast? = some text) :
    ∃ digits, IsDecimal digits ∧ text = String.ofList digits := by
  cases h with
  | @resourceId names digits _ _ hdigits _ =>
    refine ⟨digits, hdigits, ?_⟩
    simpa [Lexeme.dotted, eq_comm] using hlast
  | _ => cases hlast

theorem EndsIn.exists_writes (h : EndsIn id number) (hlexed : Lexed id) :
    ∃ written, Writes number.lexeme written ∧ Carries id.lexeme written ∧
      ∀ digits, written ≠ .hexadecimal digits := by
  obtain ⟨cs, hdecimal, htext⟩ := exists_isDecimal_of_getLast? hlexed.lexical h.dotted h.last
  have hcarried : id.lexeme.numericText = number.text := by
    have hkind : id.lexeme.kind = .resourceId := h.dotted
    have hlast : id.lexeme.components.getLast? = some number.text := h.last
    simp [Lexeme.numericText, hkind, hlast]
  have hnumeric : id.lexeme.kind.isNumeric = true := congrArg Token.Kind.isNumeric h.dotted
  have hchars : number.text.toList = cs := by rw [htext, String.toList_ofList]
  rcases hdecimal with hdigits | ⟨digits, rfl, hdigits⟩
  · exact ⟨.decimal cs, ⟨.inl h.plain, hdigits, hchars⟩, ⟨hnumeric, hdigits, hcarried ▸ hchars⟩,
      by simp⟩
  · exact ⟨.negative digits, ⟨.inl h.plain, hdigits, hchars⟩,
      ⟨hnumeric, hdigits, hcarried ▸ hchars⟩,
      by simp⟩

/-! ### The two readings -/

theorem toValue_signed {lexeme : Lexeme} (h : Carries lexeme written) {result : Value} :
    Literal.toValue (.signed width) lexeme = .ok result ↔
      ∃ word, Literal.signedWord? width lexeme = some word ∧ result = .signed width word := by
  rw [Literal.toValue, if_pos h.numeric, signed_eq_ok_iff_signedWord?]

theorem toValue_unsigned {lexeme : Lexeme} (h : Carries lexeme written) {result : Value} :
    Literal.toValue (.unsigned width) lexeme = .ok result ↔
      Denotes (.unsigned width) written result := by
  rw [Literal.toValue, if_pos h.numeric, unsigned_eq_ok_iff h]

/-- Where the readings do not part, a word is the number as a pattern of bits exactly if it is with
a sign. -/
theorem toNat_eq_iff_toInt_eq (hhex : Lexeme.hexDigits? id.text.toList ≠ none)
    (hdecimal : ∀ digits, written ≠ .hexadecimal digits) (h : ¬ Strays (.signed width) id written)
    (word : BitVec width.bits) :
    ((word.toNat : Int) = written.number ∧ ∀ digits, written ≠ .negative digits) ↔
      word.toInt = written.number := by
  have hbits := two_mul_half width
  cases written with
  | hexadecimal digits => exact absurd rfl (hdecimal digits)
  | decimal digits =>
    have hparts : ¬ (2 ^ (width.bits - 1) ≤ value 10 digits ∧ value 10 digits < 2 ^ width.bits) :=
      fun hparts ↦ h (.pattern hhex hparts.1 hparts.2)
    have hlt := word.isLt
    have hcast : (2 ^ width.bits : Int) = (2 ^ width.bits : Nat) := by push_cast; rfl
    rw [and_iff_left (by simp), Written.number, toInt_of_toNat rfl, hcast]
    -- Above half the range the word stands for a negative number, which digits without a sign never
    -- are.
    split
    · rfl
    · omega
  | negative digits =>
    have hroom : ¬ value 10 digits ≤ 2 ^ (width.bits - 1) := fun hroom ↦ h (.minus hhex hroom)
    have hlow := BitVec.le_toInt word
    refine iff_of_false (fun hword ↦ hword.2 digits rfl) fun hword ↦ hroom ?_
    rw [hword, Written.number, neg_le_neg_iff] at hlow
    exact_mod_cast hlow

theorem toValue_iff_of_not_strays (hid : Carries id.lexeme written)
    (hnumber : Writes number.lexeme written) (hdecimal : ∀ digits, written ≠ .hexadecimal digits)
    (htype : type.isInteger = true) (h : ¬ Strays type id written) {result : Value} :
    Literal.toValue type id.lexeme = .ok result ↔
      Literal.toValue type number.lexeme = .ok result := by
  cases type with
  | unsigned width => rw [toValue_unsigned hid, toValue_unsigned hnumber.carries]
  | signed width =>
    have hword : ∀ word, Literal.signedWord? width id.lexeme = some word ↔
        Literal.signedWord? width number.lexeme = some word := by
      intro word
      rw [signedWord?_of_writes hnumber hdecimal]
      by_cases hhex : Lexeme.hexDigits? id.text.toList = none
      · exact signedWord?_of_decimal hid hhex hdecimal
      · rw [signedWord?_of_hexDigits? hid hhex, toNat_eq_iff_toInt_eq hhex hdecimal h]
    rw [toValue_signed hid, toValue_signed hnumber.carries]
    simp only [hword]
  | _ => cases htype

/-- Of an id that goes astray and its number only one has a value, and a pattern is off by the
number of patterns. -/
theorem toValue_of_strays (hid : Carries id.lexeme written) (hnumber : Writes number.lexeme written)
    (h : Strays type id written) :
    (∃ result, Literal.toValue type id.lexeme = .ok result ∧
        number? result = some (written.number - 2 ^ (8 * type.width)) ∧
          ∀ other, Literal.toValue type number.lexeme ≠ .ok other) ∨
      ∃ result, Literal.toValue type number.lexeme = .ok result ∧
        number? result = some written.number ∧
        ∀ other, Literal.toValue type id.lexeme ≠ .ok other := by
  cases h with
  | @pattern width _ digits hhex hlow hhigh =>
    obtain ⟨word, hword⟩ := exists_toNat_eq_iff.mpr hhigh
    refine .inl ⟨.signed width word, ?_, ?_, ?_⟩
    · refine (toValue_signed hid).mpr ⟨word, ?_, rfl⟩
      exact (signedWord?_of_hexDigits? hid hhex).mpr ⟨congrArg Nat.cast hword, by simp⟩
    · exact congrArg some ((toInt_of_toNat hword).trans (if_neg (Nat.not_lt.mpr hlow)))
    · intro other hother
      obtain ⟨taken, htaken, _⟩ := (toValue_signed hnumber.carries).mp hother
      have hsame := (signedWord?_of_writes hnumber (by simp)).mp htaken
      have hlt := BitVec.toInt_lt (x := taken)
      rw [hsame, Written.number] at hlt
      exact Nat.not_lt.mpr hlow (by exact_mod_cast hlt)
  | @minus width _ digits hhex hroom =>
    have hroom' : (value 10 digits : Int) ≤ 2 ^ (width.bits - 1) := by exact_mod_cast hroom
    have hpos : (0 : Int) < 2 ^ (width.bits - 1) := by positivity
    obtain ⟨word, hword⟩ : ∃ word : BitVec width.bits, word.toInt = -value 10 digits :=
      exists_toInt_eq_iff.mpr ⟨by omega, by omega⟩
    refine .inr ⟨.signed width word, ?_, congrArg some hword, ?_⟩
    · exact (toValue_signed hnumber.carries).mpr
        ⟨word, (signedWord?_of_writes hnumber (by simp)).mpr hword, rfl⟩
    · intro other hother
      obtain ⟨taken, htaken, _⟩ := (toValue_signed hid).mp hother
      exact ((signedWord?_of_hexDigits? hid hhex).mp htaken).2 digits rfl

/-! ### Writing -/

/-- A resource id is stored in an integer slot exactly if the number that it ends in is as an
integer token, and as the same value, unless it goes astray. Then either the id is stored and the
number is refused, or the number is stored and the id is refused. -/
theorem setLiteral_resourceId_iff (hlexed : Lexed id) (hends : EndsIn id number)
    (resource : Resource) {field : String} {index : Nat} {slot : Slot}
    (hslot : resource.template.find? field = some (index, slot))
    (hinteger : slot.type.isInteger = true) :
    ∃ written, Writes number.lexeme written ∧
      ((∀ after, resource.setLiteral field id = (after, .ok ()) ↔
          resource.setLiteral field number = (after, .ok ())) ↔
        ¬ Strays slot.type id written) ∧
      (Strays slot.type id written →
        (∃ result, resource.setLiteral field id = (resource.setAt index result, .ok ()) ∧
          number? result = some (written.number - 2 ^ (8 * slot.type.width)) ∧
            ∃ error, resource.setLiteral field number = (resource, .error error)) ∨
          ∃ result, resource.setLiteral field number = (resource.setAt index result, .ok ()) ∧
            number? result = some written.number ∧
              ∃ error, resource.setLiteral field id = (resource, .error error)) := by
  obtain ⟨written, hnumber, hid, hdecimal⟩ := hends.exists_writes hlexed
  refine ⟨written, hnumber, ⟨fun hsame hstrays ↦ ?_, fun hnot after ↦ ?_⟩, fun hstrays ↦ ?_⟩
  · rcases toValue_of_strays hid hnumber hstrays with
      ⟨result, hresult, _, hnone⟩ | ⟨result, hresult, _, hnone⟩
    · have hstored := (hsame _).mp (setLiteral_of_toValue hslot hresult)
      obtain ⟨other, hother, -⟩ := (setLiteral_eq_ok_iff hslot).mp hstored
      exact hnone other hother
    · have hstored := (hsame _).mpr (setLiteral_of_toValue hslot hresult)
      obtain ⟨other, hother, -⟩ := (setLiteral_eq_ok_iff hslot).mp hstored
      exact hnone other hother
  · simp only [setLiteral_eq_ok_iff hslot,
      toValue_iff_of_not_strays hid hnumber hdecimal hinteger hnot]
  · rcases toValue_of_strays hid hnumber hstrays with
      ⟨result, hresult, hvalue, hnone⟩ | ⟨result, hresult, hvalue, hnone⟩
    · exact .inl ⟨result, setLiteral_of_toValue hslot hresult, hvalue,
        setLiteral_of_forall_ne hslot hnone⟩
    · exact .inr ⟨result, setLiteral_of_toValue hslot hresult, hvalue,
        setLiteral_of_forall_ne hslot hnone⟩

/-- A resource id with a name that begins as a hexadecimal literal does. -/
def shipment (number : String) : Token := ⟨.dotted .resourceId ["0x1", number], ⟨0, 1, 0⟩, none⟩

/-- A slot of two bytes takes the id as a negative number, which it would not have room for as it is
written. -/
theorem setLiteral_resourceId_iff_shipment :
    Lexed (shipment "40000") ∧ EndsIn (shipment "40000") (.synthetic .integer "40000") ∧
      cargo.find? "mass" = some (0, ⟨.synthetic .identifier "mass", .signed .word⟩) ∧
        ∃ result, (Resource.blank cargo "CRGO" 128 "").setLiteral "mass" (shipment "40000") =
            ((Resource.blank cargo "CRGO" 128 "").setAt 0 result, .ok ()) ∧
          number? result = some (-25536) ∧
            ∃ error, (Resource.blank cargo "CRGO" 128 "").setLiteral "mass"
              (.synthetic .integer "40000") = (.blank cargo "CRGO" 128 "", .error error) := by
  have hlexed : Lexed (shipment "40000") :=
    ⟨none, "#0x1.40000", 0, [shipment "40000"], by decide +kernel, List.mem_singleton_self _⟩
  have hends : EndsIn (shipment "40000") (.synthetic .integer "40000") := ⟨rfl, rfl, rfl⟩
  have hmass : cargo.find? "mass" = some (0, ⟨.synthetic .identifier "mass", .signed .word⟩) := rfl
  refine ⟨hlexed, hends, hmass, ?_⟩
  obtain ⟨written, hwrites, _, hparted⟩ :=
    setLiteral_resourceId_iff hlexed hends (.blank cargo "CRGO" 128 "") hmass rfl
  have hwritten : written = .decimal "40000".toList := by
    rw [eq_ofText hwrites.legal, ← hwrites.text]
    rfl
  subst hwritten
  have hvalue : value 10 "40000".toList = 40000 := by decide +kernel
  have hstrays : Strays (.signed .word) (shipment "40000") (.decimal "40000".toList) := by
    refine .pattern ?_ ?_ ?_
    · decide
    · rw [hvalue]
      decide
    · rw [hvalue]
      decide
  rcases hparted hstrays with ⟨result, hset, hnumber, hrefused⟩ | ⟨result, hset, _⟩
  · refine ⟨result, hset, ?_, hrefused⟩
    rw [hnumber, Written.number, hvalue]
    rfl
  · have hrange : (Resource.blank cargo "CRGO" 128 "").setLiteral "mass"
        (.synthetic .integer "40000") =
          (.blank cargo "CRGO" 128 "", .error (.valueOutOfRange "mass" "40000")) := rfl
    cases congrArg Prod.snd (hrange.symm.trans hset)

/-- An id that is refused although the slot stores its number. -/
theorem setLiteral_shipment_refused :
    (Lexer.ofText "#0x1.-5 -5").resume.1 =
        .ok [shipment "-5", ⟨.plain .integer "-5", ⟨8, 1, 8⟩, none⟩] ∧
      (Resource.blank cargo "CRGO" 128 "").setLiteral "mass" (shipment "-5") =
        (.blank cargo "CRGO" 128 "", .error (.valueOutOfRange "mass" "0x1.-5")) ∧
      (Resource.blank cargo "CRGO" 128 "").setLiteral "mass"
          ⟨.plain .integer "-5", ⟨8, 1, 8⟩, none⟩ =
        ((Resource.blank cargo "CRGO" 128 "").setAt 0 (.signed .word (-5)), .ok ()) := by
  refine ⟨?_, rfl, rfl⟩
  decide +kernel

end ResourceLang.Proofs.DottedNumbers
