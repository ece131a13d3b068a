import ResourceLang.Proofs.FieldWrites
import ResourceLang.Proofs.IntegerSlots

/-!
Why integer slots refuse literals. A slot with a sign calls whatever it refuses out of range, also a
resource id that has no number at all. A slot without a sign can tell the two apart as long as 64
bits hold the number, with a sign or without: a number further off is refused as if it were none.
-/

set_option autoImplicit false
set_option relaxedAutoImplicit false

namespace ResourceLang.Proofs.RefusedNumbers

open LexemeGrammar NumericTokens TypedSlots FieldWrites IntegerSlots

/-- The resource id that is to be numbered later. -/
def auto : Lexeme := .plain .resourceId "auto"

/-- What a literal denotes is a number of 64 bits, with a sign or without. -/
def Held (written : Written) : Prop :=
  Int64.minValue.toInt ≤ written.number ∧ written.number < UInt64.size

/-- Whatever number the slot refuses is out of range for it, and a literal without a number is
invalid. -/
structure Classed (resource : Resource) (field : String) (token : Token) : Prop where
  number : ∀ written error, Carries token.lexeme written →
    (resource.setLiteral field token).2 = .error error → error = .valueOutOfRange field token.text
  numberless : (∀ written, ¬ Carries token.lexeme written) →
    resource.setLiteral field token = (resource, .error (.invalidLiteral field token.text))

/-- The integer slots that refuse the token all do it for the same fault. -/
def Alike (token : Token) : Prop :=
  ∀ type other fault found, type.isInteger = true → other.isInteger = true →
    Literal.toValue type token.lexeme = .error fault →
      Literal.toValue other token.lexeme = .error found →
      fault = found

/-- The literals that a slot refuses for the wrong fault: those without a number where it has a
sign, and those with a number that 64 bits do not hold where it has none. -/
inductive Misclassed : SlotType → Lexeme → Prop
  | numberless {width : Width} {lexeme : Lexeme} (h : ∀ written, ¬ Carries lexeme written) :
    Misclassed (.signed width) lexeme
  | beyond {width : Width} {lexeme : Lexeme} {written : Written} (hcarries : Carries lexeme written)
      (h : ¬ Held written) :
    Misclassed (.unsigned width) lexeme

variable {lexeme : Lexeme} {written : Written} {width : Width} {fault : Literal.Fault}

/-! ### Numbers of tokens -/

theorem not_carries_auto (written : Written) : ¬ Carries auto written := by
  intro h
  have htext : "auto".toList = written.text := h.text
  have hlegal := h.legal
  rw [eq_ofText hlegal, ← htext] at hlegal
  exact absurd (hlegal.2 'a' (by decide)) (by decide)

theorem exists_carries_of_isDecimal {number : List Char} (hdecimal : IsDecimal number)
    (hnumeric : lexeme.kind.isNumeric = true) (htext : lexeme.numericText.toList = number) :
    ∃ written, Carries lexeme written ∧ ∀ digits, written ≠ .hexadecimal digits := by
  rcases hdecimal with hdigits | ⟨digits, rfl, hdigits⟩
  · exact ⟨.decimal number, ⟨hnumeric, hdigits, htext⟩, by simp⟩
  · exact ⟨.negative digits, ⟨hnumeric, hdigits, htext⟩, by simp⟩

theorem kind_of_isNumeric {kind : Token.Kind} (h : kind.isNumeric = true) :
    (kind = .integer ∨ kind = .percentage) ∨ kind = .resourceId := by
  revert h
  cases kind <;> decide

/-- A numeric lexeme carries a number or is the one without. A hexadecimal number is all of its
text. -/
theorem carries_of_lexical (h : Lexical lexeme) (hnumeric : lexeme.kind.isNumeric = true) :
    lexeme = auto ∨ ∃ written, Carries lexeme written ∧
      (Lexeme.hexDigits? lexeme.text.toList = none → ∀ digits, written ≠ .hexadecimal digits) := by
  rcases kind_of_isNumeric hnumeric with hkind | hkind
  · obtain ⟨written, hwrites⟩ := exists_writes_of_lexical h hkind
    refine .inr ⟨written, hwrites.carries, ?_⟩
    rintro hnone digits rfl
    rw [hwrites.text] at hnone
    cases hnone
  · cases h with
    | auto => exact .inl rfl
    | @resourceId names number _ _ hnumber _ =>
      have htext :
          (Lexeme.dotted .resourceId ((names ++ [number]).map String.ofList)).numericText.toList =
          number := by simp [Lexeme.numericText, Lexeme.dotted]
      obtain ⟨written, hcarries, hdecimal⟩ := exists_carries_of_isDecimal hnumber rfl htext
      exact .inr ⟨written, hcarries, fun _ ↦ hdecimal⟩
    | @symbol kind text htext =>
      obtain rfl : kind = .resourceId := hkind
      cases htext
    | _ => cases hkind

/-! ### Faults -/

theorem number_hexadecimal {digits : List Char} (h : Carries lexeme (.hexadecimal digits)) {n : Int}
    (hread : lexeme.number = .ok n) : value 16 digits < UInt64.size := by
  have hsigned : ∃ n, Lexeme.readSigned? lexeme.numericText = some n := by
    rw [Lexeme.number, precedence?_of_isNumeric h.numeric] at hread
    cases hsome : Lexeme.readSigned? lexeme.numericText with
    | some n => exact ⟨n, rfl⟩
    | none =>
      rw [hsome] at hread
      simp [h.numeric] at hread
  obtain ⟨n, hn⟩ := hsigned
  rw [Lexeme.readSigned?, h.text] at hn
  simp only [Written.text, Lexeme.hexDigits?, readNat_of_isHexDigits h.legal,
    Option.map_eq_some_iff, filter_some_eq_some_iff, decide_eq_true_eq] at hn
  obtain ⟨_, ⟨rfl, hlt⟩, _⟩ := hn
  exact hlt

/-- A number can be read in one way or the other exactly if 64 bits hold it. -/
theorem exists_read_iff_held (h : Carries lexeme written) :
    ((∃ n, lexeme.unsignedNumber = .ok n) ∨ ∃ n, lexeme.number = .ok n) ↔ Held written := by
  have hmin : Int64.minValue.toInt < 0 := by decide
  have hmax : Int64.maxValue.toInt < UInt64.size := by decide
  constructor
  · rintro (⟨n, hn⟩ | ⟨n, hn⟩)
    · obtain ⟨hnumber, hlt, _⟩ := h.unsignedNumber_eq_ok_iff.mp hn
      rw [Held, ← hnumber]
      omega
    · by_cases hhex : ∃ digits, written = .hexadecimal digits
      · obtain ⟨digits, rfl⟩ := hhex
        have hlt := number_hexadecimal h hn
        rw [Held, Written.number]
        omega
      · obtain ⟨rfl, hlow, hhigh⟩ := (h.number_eq_ok_iff (not_exists.mp hhex)).mp hn
        exact ⟨hlow, hhigh.trans_lt hmax⟩
  · rintro ⟨hlow, hhigh⟩
    by_cases hsign : ∃ digits, written = .negative digits
    · obtain ⟨digits, rfl⟩ := hsign
      refine .inr ⟨_, (h.number_eq_ok_iff (by simp)).mpr ⟨rfl, hlow, ?_⟩⟩
      have hmax : 0 ≤ Int64.maxValue.toInt := by decide
      rw [Written.number]
      omega
    · obtain ⟨n, hn⟩ := exists_natCast_eq_number (not_exists.mp hsign)
      refine .inl ⟨n, h.unsignedNumber_eq_ok_iff.mpr ⟨hn, ?_, not_exists.mp hsign⟩⟩
      rw [← hn] at hhigh
      exact_mod_cast hhigh

theorem unsigned_of_held (hcarries : Carries lexeme written) (hheld : Held written)
    (h : Literal.unsigned width lexeme = .error fault) : fault = .outOfRange := by
  have hread := (exists_read_iff_held hcarries).mpr hheld
  unfold Literal.unsigned at h
  split at h
  · split at h
    · cases h
    · exact (Except.error.inj h).symm
  · rename_i herror
    split at h
    · exact (Except.error.inj h).symm
    · rename_i hother
      rw [herror, hother] at hread
      rcases hread with ⟨n, hn⟩ | ⟨n, hn⟩
      · cases hn
      · cases hn

theorem unsigned_of_not_held (hcarries : Carries lexeme written) (hheld : ¬ Held written) :
    Literal.unsigned width lexeme = .error .invalid := by
  have hread := mt (exists_read_iff_held hcarries).mp hheld
  rw [not_or, not_exists, not_exists] at hread
  unfold Literal.unsigned
  split
  · rename_i n hn
    exact absurd hn (hread.1 n)
  · split
    · rename_i n hn
      exact absurd hn (hread.2 n)
    · rfl

theorem toValue_unsigned_eq (hnumeric : lexeme.kind.isNumeric = true) :
    Literal.toValue (.unsigned width) lexeme = Literal.unsigned width lexeme := if_pos hnumeric

theorem toValue_signed_eq (hnumeric : lexeme.kind.isNumeric = true) :
    Literal.toValue (.signed width) lexeme = Literal.signed width lexeme := if_pos hnumeric

theorem unsigned_auto (width : Width) : Literal.unsigned width auto = .error .invalid := rfl

theorem signed_auto (width : Width) : Literal.signed width auto = .error .outOfRange := rfl

theorem signed_eq_error (h : Literal.signed width lexeme = .error fault) : fault = .outOfRange := by
  unfold Literal.signed at h
  split at h
  · cases h
  · exact (Except.error.inj h).symm

/-- No word is as large as a number that 64 bits do not hold. -/
theorem signed_of_not_held (hcarries : Carries lexeme written)
    (hhex : Lexeme.hexDigits? lexeme.text.toList = none → ∀ digits, written ≠ .hexadecimal digits)
    (hheld : ¬ Held written) : Literal.signed width lexeme = .error .outOfRange := by
  have hmax : Int64.maxValue.toInt < UInt64.size := by decide
  have hmin : Int64.minValue.toInt < 0 := by decide
  have hnone : Literal.signedWord? width lexeme = none := by
    rw [Option.eq_none_iff_forall_ne_some]
    intro word hword
    refine hheld ?_
    by_cases htext : Lexeme.hexDigits? lexeme.text.toList = none
    · have hint := (signedWord?_of_decimal hcarries htext (hhex htext)).mp hword
      obtain ⟨hlow, hhigh⟩ := toInt_mem_range word
      rw [Held, ← hint]
      exact ⟨hlow, hhigh.trans_lt hmax⟩
    · have hnat := ((signedWord?_of_hexDigits? hcarries htext).mp hword).1
      have hlt := toNat_lt_size word
      rw [Held, ← hnat]
      omega
  rw [Literal.signed, hnone]

/-- A number that is refused is out of range, unless the slot takes it for none. -/
theorem fault_of_carries {type : SlotType} (hinteger : type.isInteger = true)
    (hcarries : Carries lexeme written) (hclassed : ¬ Misclassed type lexeme)
    (h : Literal.toValue type lexeme = .error fault) :
    fault = .outOfRange := by
  cases type with
  | unsigned width =>
    rw [toValue_unsigned_eq hcarries.numeric] at h
    by_cases hheld : Held written
    · exact unsigned_of_held hcarries hheld h
    · exact absurd (.beyond hcarries hheld) hclassed
  | signed width =>
    rw [toValue_signed_eq hcarries.numeric] at h
    exact signed_eq_error h
  | _ => cases hinteger

theorem eq_auto_of_not_carries (h : Lexical lexeme) (hnumeric : lexeme.kind.isNumeric = true)
    (hnone : ∀ written, ¬ Carries lexeme written) : lexeme = auto := by
  rcases carries_of_lexical h hnumeric with hauto | ⟨written, hcarries, -⟩
  · exact hauto
  · exact absurd hcarries (hnone written)

/-- All integer slots refuse a token for one fault exactly if it has a number that 64 bits hold. -/
theorem alike_iff {token : Token} (h : Lexical token.lexeme)
    (hnumeric : token.kind.isNumeric = true) :
    Alike token ↔ ∃ written, Carries token.lexeme written ∧ Held written := by
  constructor
  · intro halike
    have hbyte := halike (.unsigned .byte) (.signed .byte) .invalid .outOfRange rfl rfl
    rw [toValue_unsigned_eq hnumeric, toValue_signed_eq hnumeric] at hbyte
    rcases carries_of_lexical h hnumeric with hauto | ⟨written, hcarries, hhex⟩
    · rw [hauto] at hbyte
      cases hbyte (unsigned_auto _) (signed_auto _)
    · refine ⟨written, hcarries, ?_⟩
      by_contra hheld
      cases hbyte (unsigned_of_not_held hcarries hheld) (signed_of_not_held hcarries hhex hheld)
  · rintro ⟨written, hcarries, hheld⟩ type other fault found htype hother hfault hfound
    have hclassed (type : SlotType) : ¬ Misclassed type token.lexeme := by
      rintro (hnone | ⟨hbeyond, hnot⟩)
      · exact hnone written hcarries
      · exact hnot (hcarries.unique hbeyond ▸ hheld)
    rw [fault_of_carries htype hcarries (hclassed type) hfault,
      fault_of_carries hother hcarries (hclassed other) hfound]

/-! ### Writing -/

section Writing

variable {token : Token} {resource : Resource} {field : String} {index : Nat} {slot : Slot}

theorem setLiteral_eq_error_iff (hslot : resource.template.find? field = some (index, slot))
    {error : WriteError} :
    (resource.setLiteral field token).2 = .error error ↔
      ∃ fault, Literal.toValue slot.type token.lexeme = .error fault ∧
        error = fault.toError field slot.type token.lexeme := by
  cases hvalue : Literal.toValue slot.type token.lexeme with
  | ok value =>
    rw [setLiteral_of_toValue hslot hvalue]
    simp
  | error fault =>
    rw [setLiteral_of_fault hslot hvalue]
    simp [eq_comm]

/-- A slot that has the fault of a token wrong. -/
theorem not_classed_of_misclassed (hnumeric : token.kind.isNumeric = true)
    (hslot : resource.template.find? field = some (index, slot))
    (h : Misclassed slot.type token.lexeme) :
    ¬ Classed resource field token := by
  intro hclassed
  generalize htype : slot.type = type at h
  generalize hlexeme : token.lexeme = lexeme at h
  cases h with
  | @numberless width _ hnone =>
    subst hlexeme
    obtain ⟨fault, hfault, herror⟩ :=
      (setLiteral_eq_error_iff hslot).mp (congrArg Prod.snd (hclassed.numberless hnone))
    rw [htype, toValue_signed_eq hnumeric] at hfault
    obtain rfl := signed_eq_error hfault
    cases herror
  | @beyond width _ written hcarries hheld =>
    subst hlexeme
    have hfault : Literal.toValue slot.type token.lexeme = .error .invalid := by
      rw [htype, toValue_unsigned_eq hnumeric, unsigned_of_not_held hcarries hheld]
    cases hclassed.number written _ hcarries ((setLiteral_eq_error_iff hslot).mpr ⟨_, hfault, rfl⟩)

theorem classed_of_not_misclassed (hlexical : Lexical token.lexeme)
    (hnumeric : token.kind.isNumeric = true)
    (hslot : resource.template.find? field = some (index, slot))
    (hinteger : slot.type.isInteger = true) (h : ¬ Misclassed slot.type token.lexeme) :
    Classed resource field token := by
  constructor
  · intro written error hcarries herror
    obtain ⟨fault, hfault, rfl⟩ := (setLiteral_eq_error_iff hslot).mp herror
    rw [fault_of_carries hinteger hcarries h hfault]
    rfl
  · intro hnone
    have hauto := eq_auto_of_not_carries hlexical hnumeric hnone
    have hfault : Literal.toValue slot.type token.lexeme = .error .invalid := by
      cases htype : slot.type with
      | unsigned width => rw [toValue_unsigned_eq hnumeric, hauto, unsigned_auto]
      | signed width => exact absurd (htype ▸ .numberless hnone) h
      | _ =>
        rw [htype] at hinteger
        cases hinteger
    exact setLiteral_of_fault hslot hfault

/-- An integer slot calls a number that it refuses out of range, and a literal without a number
invalid, exactly if the literal is not one of those that it has the fault of wrong. All integer
slots refuse a literal for one fault exactly if it has a number that 64 bits hold: any other is out
of range for a slot with a sign and invalid for one without. -/
theorem classed_iff_not_misclassed (hlexed : Lexed token) (hnumeric : token.kind.isNumeric = true) :
    (∀ (resource : Resource) field index slot, resource.template.find? field = some (index, slot) →
      slot.type.isInteger = true →
        (Classed resource field token ↔ ¬ Misclassed slot.type token.lexeme)) ∧
    (Alike token ↔ ∃ written, Carries token.lexeme written ∧ Held written) := by
  refine ⟨fun resource field index slot hslot hinteger ↦ ⟨fun hclassed hmis ↦ ?_, fun hnot ↦ ?_⟩,
    ?_⟩
  · exact not_classed_of_misclassed hnumeric hslot hmis hclassed
  · exact classed_of_not_misclassed hlexed.lexical hnumeric hslot hinteger hnot
  · exact alike_iff hlexed.lexical hnumeric

end Writing

/-- A ship has a crew, which is not negative, and a course. -/
def ship : Template where
  slots := [⟨.synthetic .identifier "crew", .unsigned .word⟩,
    ⟨.synthetic .identifier "course", .signed .long⟩]
  distinct := by decide

def ship128 : Resource := .blank ship "SHIP" 128 ""

/-- A number one less than those of 64 bits with a sign. -/
def beneath : Token := ⟨.plain .percentage "-9223372036854775809", .start, none⟩

theorem classed_iff_not_misclassed_beneath :
    Lexed beneath ∧ beneath.kind.isNumeric = true ∧ Classed ship128 "course" beneath ∧
      ¬ Classed ship128 "crew" beneath ∧ ¬ Alike beneath := by
  have hlexed : Lexed beneath :=
    ⟨none, "-9223372036854775809%", 0, [beneath], by decide +kernel, List.mem_singleton_self _⟩
  obtain ⟨hclassed, halike⟩ := classed_iff_not_misclassed hlexed rfl
  have hdigits : IsDigits "9223372036854775809".toList := by simp [IsDigits]
  have hcarries : Carries beneath.lexeme (.negative "9223372036854775809".toList) :=
    ⟨rfl, hdigits, rfl⟩
  have hvalue : value 10 "9223372036854775809".toList = 9223372036854775809 := by decide +kernel
  have hbeyond : ¬ Held (.negative "9223372036854775809".toList) := by
    rw [Held, Written.number, hvalue]
    decide
  refine ⟨hlexed, rfl, (hclassed ship128 "course" 1 _ rfl rfl).mpr ?_, fun hcrew ↦ ?_,
    fun hsame ↦ ?_⟩
  · rintro ⟨hnone⟩
    exact hnone _ hcarries
  · exact (hclassed ship128 "crew" 0 _ rfl rfl).mp hcrew (.beyond hcarries hbeyond)
  · obtain ⟨written, hother, hheld⟩ := halike.mp hsame
    exact hbeyond (hother.unique hcarries ▸ hheld)

/-- The literal without a number is out of range for the slot with a sign, and a large number is
invalid for the one without. -/
theorem not_classed_auto :
    (Lexer.ofText "#auto 99999999999999999999").resume.1 =
        .ok [⟨auto, .start, none⟩, ⟨.plain .integer "99999999999999999999", ⟨6, 1, 6⟩, none⟩] ∧
      ship128.setLiteral "course" ⟨auto, .start, none⟩ =
        (ship128, .error (.valueOutOfRange "course" "auto")) ∧
      ship128.setLiteral "crew" ⟨auto, .start, none⟩ =
        (ship128, .error (.invalidLiteral "crew" "auto")) ∧
      ship128.setLiteral "course" ⟨.plain .integer "99999999999999999999", ⟨6, 1, 6⟩, none⟩ =
        (ship128, .error (.valueOutOfRange "course" "99999999999999999999")) ∧
      ship128.setLiteral "crew" ⟨.plain .integer "99999999999999999999", ⟨6, 1, 6⟩, none⟩ =
        (ship128, .error (.invalidLiteral "crew" "99999999999999999999")) ∧
      ¬ Classed ship128 "course" ⟨auto, .start, none⟩ := by
  refine ⟨by decide +kernel, rfl, rfl, rfl, rfl, fun hclassed ↦ ?_⟩
  have hset : ship128.setLiteral "course" ⟨auto, .start, none⟩ =
      (ship128, .error (.valueOutOfRange "course" "auto")) := rfl
  cases congrArg Prod.snd (hset.symm.trans (hclassed.numberless not_carries_auto))

end ResourceLang.Proofs.RefusedNumbers
