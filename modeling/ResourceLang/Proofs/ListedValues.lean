import ResourceLang.Listing
import ResourceLang.Proofs.IntegerSlots
import ResourceLang.Proofs.PrefixedIds
import ResourceLang.Proofs.PrintedDigits

/-!
Values as they are listed, and read back. The listing of an integer and of data is one integer
token, in decimal or with capital hexadecimal digits, and wherever the value fits that token means
the value again: no slot has another reading for it, at either end of any range.
-/

set_option autoImplicit false
set_option relaxedAutoImplicit false

namespace ResourceLang.Proofs.ListedValues

open Text Token.Scan LexemeGrammar SpelledLexemes NumericTokens IntegerSlots FieldWrites TypedSlots
  TemplateRoundTrip
  PrefixedIds PairedDigits PrintedDigits

/-- The values that are listed as a numeral: integers, and data of one byte at least. Of no data
there is only the prefix `0x`, which reads as a zero and a name. -/
def IsNumeral : Value → Prop
  | .unsigned _ _ => True
  | .signed _ _ => True
  | .bytes data => data ≠ []
  | .rect _ => False
  | .string _ _ => False

/-- The text is a single token, an integer, and any slot that the value fits stores the value for
it. -/
def ReadsBack (text : String) (value : Value) : Prop :=
  ∃ token, tokenize text = .ok [token] ∧ token.kind = .integer ∧
    ∀ (resource : Resource) (field : String) (index : Nat) (slot : Slot),
      resource.template.find? field = some (index, slot) → value.fits slot.type = true →
        resource.setLiteral field token = (resource.setAt index value, .ok ()) ∧
          (resource.setAt index value).value? field = some value

variable {value : Value}

/-! ### One token -/

theorem tokenize_decimal {number : List Char} (h : IsDecimal number) :
    tokenize (String.ofList number) =
      .ok [⟨.plain .integer (String.ofList number), .start, none⟩] := by
  have hcuts := cuts_integer h stops_nil .outside
  rw [List.append_nil] at hcuts
  exact tokenize_of_cuts (by rwa [String.toList_ofList])

theorem tokenize_hexadecimal {digits : List Char} (h : IsHexDigits digits) :
    tokenize (String.ofList ('0' :: 'x' :: digits)) =
      .ok [⟨.plain .integer (String.ofList ('0' :: 'x' :: digits)), .start, none⟩] := by
  have hcuts := cuts_hexadecimal h stops_nil .outside
  rw [List.append_nil] at hcuts
  exact tokenize_of_cuts (by rwa [String.toList_ofList])

/-- A listing reads back if it is one token that means the value in every type that the value
fits. -/
theorem readsBack_of_toValue {text : String} {lexeme : Lexeme}
    (htoken : tokenize text = .ok [⟨lexeme, .start, none⟩]) (hkind : lexeme.kind = .integer)
    (hmeans : ∀ type, value.fits type = true → Literal.toValue type lexeme = .ok value) :
    ReadsBack text value := by
  refine ⟨_, htoken, hkind, fun resource field index slot hslot hfits ↦ ⟨?_, ?_⟩⟩
  · exact setLiteral_of_toValue hslot (hmeans slot.type hfits)
  · rw [Resource.value?]
    have hindex : (resource.setAt index value).template.indexOf? field = some index :=
      (indexOf?_of_find? hslot).1
    rw [hindex, Option.bind_some, valueAt?_setAt_self]

/-! ### Integers -/

/-- A number in decimal, with a sign where it is negative. -/
def decimalOf (n : Int) : Written :=
  if 0 ≤ n then .decimal (Nat.toDigits 10 n.toNat) else .negative (Nat.toDigits 10 (-n).toNat)

theorem decimalOf_spec (n : Int) : (decimalOf n).Legal ∧ (decimalOf n).number = n ∧
    (∀ digits, decimalOf n ≠ .hexadecimal digits) ∧ IsDecimal (decimalOf n).text ∧
      toString n = String.ofList (decimalOf n).text := by
  have hrepr : toString n = n.repr := rfl
  rw [hrepr, Int.repr_eq_if, decimalOf]
  split_ifs with hsign
  · have hdigits := isDigits_toDigits n.toNat
    have hvalue := value_toDigits (by decide : 1 < 10) (by decide) n.toNat
    refine ⟨hdigits, ?_, ?_, .inl hdigits, Nat.repr_eq_ofList_toDigits⟩
    · rw [Written.number, hvalue]
      omega
    · intro digits hsame
      cases hsame
  · have hdigits := isDigits_toDigits (-n).toNat
    have hvalue := value_toDigits (by decide : 1 < 10) (by decide) (-n).toNat
    refine ⟨hdigits, ?_, ?_, .inr ⟨_, rfl, hdigits⟩, ?_⟩
    · rw [Written.number, hvalue]
      omega
    · intro digits hsame
      cases hsame
    · rw [Nat.repr_eq_ofList_toDigits]
      exact String.ofList_append.symm

/-- The token of a number in decimal is a literal of that number. -/
theorem writes_decimalOf (n : Int) :
    Writes (.plain .integer (String.ofList (decimalOf n).text)) (decimalOf n) :=
  ⟨.inl rfl, (decimalOf_spec n).1, String.toList_ofList⟩

/-- An integer that is listed in decimal reads back if it is what its literal denotes. -/
theorem readsBack_decimal {type : SlotType} {n : Int} (htype : type.isInteger = true)
    (hfits : ∀ other, value.fits other = true → other = type)
    (h : Denotes type (decimalOf n) value) :
    ReadsBack (toString n) value := by
  obtain ⟨-, -, -, hdecimal, htext⟩ := decimalOf_spec n
  rw [htext]
  refine readsBack_of_toValue (tokenize_decimal hdecimal) rfl fun other hother ↦ ?_
  rw [hfits other hother]
  exact (toValue_eq_ok_iff (writes_decimalOf n) htype).mpr h

theorem readsBack_unsigned {width : Width} (word : BitVec width.bits) :
    ReadsBack (Value.unsigned width word).listing (.unsigned width word) := by
  have hlisting : (Value.unsigned width word).listing = toString (word.toNat : Int) := rfl
  obtain ⟨-, hnumber, -⟩ := decimalOf_spec (word.toNat : Int)
  rw [hlisting]
  refine readsBack_decimal rfl (fun other hother ↦ ?_)
    (.unsigned (fun digits hnegative ↦ ?_) hnumber.symm)
  · cases other <;> simp_all [Value.fits]
  · rw [decimalOf, if_pos (by omega)] at hnegative
    cases hnegative

theorem readsBack_signed {width : Width} (word : BitVec width.bits) :
    ReadsBack (Value.signed width word).listing (.signed width word) := by
  obtain ⟨-, hnumber, hdecimal, -⟩ := decimalOf_spec word.toInt
  refine readsBack_decimal rfl (fun other hother ↦ ?_) (.signed hdecimal hnumber.symm)
  cases other <;> simp_all [Value.fits]

/-! ### Data -/

theorem toValue_hexData {data : List UInt8} :
    Literal.toValue .hexData (.plain .integer (String.ofList ('0' :: 'x' :: capitals data))) =
      .ok (.bytes data) := by
  obtain ⟨hhex, hbytes⟩ := capitals_spec data
  have hdigits : Literal.dataDigits?
      (.plain .integer (String.ofList ('0' :: 'x' :: capitals data))) =
      some (capitals data) := by
    simp [Literal.dataDigits?, Lexeme.plain]
  have hread := (readBytes_eq_some_iff (capitals data)).mpr ⟨by rwa [unsigned_of_allHex hhex], rfl⟩
  rw [unsigned_of_allHex hhex, hbytes] at hread
  simp only [Literal.toValue, Literal.hexData, hdigits, Option.bind_some, hread]

theorem capitals_ne_nil {data : List UInt8} (h : data ≠ []) : capitals data ≠ [] := by
  obtain ⟨b, data, rfl⟩ := List.exists_cons_of_ne_nil h
  obtain ⟨high, low, hpair, -⟩ := upperHex_byte b
  simp [capitals, hpair]

theorem readsBack_bytes {data : List UInt8} (h : data ≠ []) :
    ReadsBack (Value.bytes data).listing (.bytes data) := by
  have hlisting : (Value.bytes data).listing = String.ofList ('0' :: 'x' :: capitals data) :=
    String.ofList_append.symm
  rw [hlisting]
  refine readsBack_of_toValue (tokenize_hexadecimal ⟨capitals_ne_nil h, (capitals_spec data).1⟩) rfl
    ?_
  intro type htype
  cases type with
  | hexData => exact toValue_hexData
  | _ => cases htype

/-- Whatever integer of whatever width, and whatever data of one byte at least, a value is listed
as: it is read as one integer token, and that token is stored as the same value wherever the value
fits. -/
theorem readsBack_listing (h : IsNumeral value) : ReadsBack value.listing value := by
  cases value with
  | unsigned width word => exact readsBack_unsigned word
  | signed width word => exact readsBack_signed word
  | bytes data => exact readsBack_bytes h
  | rect edges => exact h.elim
  | string text length => exact h.elim

/-- The least number of the widest slot, and data that begin with a zero. -/
theorem readsBack_listing_least :
    IsNumeral (.signed .quad 0x8000000000000000) ∧ IsNumeral (.bytes [0x00, 0x0E, 0xBE]) ∧
      ReadsBack "-9223372036854775808" (.signed .quad 0x8000000000000000) ∧
        ReadsBack "0x000EBE" (.bytes [0x00, 0x0E, 0xBE]) := by
  have hdata : IsNumeral (.bytes [0x00, 0x0E, 0xBE]) := List.cons_ne_nil _ _
  have hleast : (Value.signed .quad 0x8000000000000000).listing = "-9223372036854775808" := by
    decide
  have hbytes : (Value.bytes [0x00, 0x0E, 0xBE]).listing = "0x000EBE" := by decide
  refine ⟨trivial, hdata, ?_, ?_⟩
  · rw [← hleast]
    exact readsBack_listing trivial
  · rw [← hbytes]
    exact readsBack_listing hdata

end ResourceLang.Proofs.ListedValues
