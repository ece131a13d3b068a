import ResourceLang.Proofs.FieldWrites
import ResourceLang.Proofs.NumericTokens
import ResourceLang.Proofs.TemplateRoundTrip

/-!
Texts in data slots. A slot takes the hexadecimal digits of a text in pairs, counted from the last
one, and a byte is stored for each pair. But every pair is read as a numeral of its own, and a
numeral may have a plus sign in front: a pair of a plus sign and a digit is taken for the digit, so
some texts are taken that are not made of digits.
-/

set_option autoImplicit false
set_option relaxedAutoImplicit false

namespace ResourceLang.Proofs.PairedDigits

open Text Token.Scan NumericTokens TypedSlots FieldWrites TemplateRoundTrip

/-! ### Digits as bytes -/

/-- The byte of a pair of digits. -/
def byteOf (high low : Char) : UInt8 := UInt8.ofNat (16 * digitValue high + digitValue low)

/-- The bytes of digits in reverse, the last byte first. A digit without a partner has a zero for
one. -/
def bytesFromEnd : List Char → List UInt8
  | [] => []
  | [low] => [byteOf '0' low]
  | low :: high :: front => byteOf high low :: bytesFromEnd front

/-- The bytes of digits, which are taken in pairs from the last one on. -/
def bytesOf (digits : List Char) : List UInt8 := (bytesFromEnd digits.reverse).reverse

example : bytesOf "aBc".toList = [0x0A, 0xBC] := by decide

/-- A plus sign in front of a digit adds nothing to it, as a zero does. -/
def withoutSign (c : Char) : Char := if c = '+' then '0' else c

/-- The characters of a text in reverse, with a zero for every plus sign that is the first of its
pair. -/
def unsignedFromEnd : List Char → List Char
  | low :: high :: front => low :: withoutSign high :: unsignedFromEnd front
  | digits => digits

/-- The characters of a text with a zero for every plus sign that is the first of its pair. -/
def unsigned (digits : List Char) : List Char := (unsignedFromEnd digits.reverse).reverse

/-- There are only hexadecimal digits. -/
def AllHex (digits : List Char) : Prop := ∀ c ∈ digits, isHexDigit c = true

/-- The characters of a token that count in a data slot. -/
def digitsOf (token : Token) : List Char := Blank.strip token.text.toList

/-- The slot takes the digits of a token for their bytes, and takes a token of digits only. -/
structure TakesDigits (resource : Resource) (field : String) (index : Nat) (token : Token) :
    Prop where
  accepted_iff : (∃ after, resource.setLiteral field token = (after, .ok ())) ↔
    AllHex (digitsOf token)
  stored : AllHex (digitsOf token) →
    resource.setLiteral field token =
      (resource.setAt index (.bytes (bytesOf (digitsOf token))), .ok ())
  refused : ¬ AllHex (digitsOf token) →
    resource.setLiteral field token = (resource, .error (.invalidLiteral field token.text))

/-! ### One pair -/

theorem isHexDigit_of_digit? {c : Char} {d : Nat} (h : Numeral.digit? c = some d) (hd : d < 16) :
    isHexDigit c = true := by
  simp only [isHexDigit, Bool.or_eq_true, Bool.and_eq_true, decide_eq_true_eq, Char.le_def,
    UInt32.le_iff_toNat_le]
  unfold Numeral.digit? at h
  split_ifs at h with hdigit hlower hupper
  · exact .inl (.inl hdigit)
  · have hlow : 97 ≤ c.toNat := of_decide_eq_true (Bool.and_eq_true_iff.mp hlower).1
    have hhigh : c.toNat ≤ 102 := by
      have hvalue := Option.some.inj h
      omega
    exact .inl (.inr ⟨hlow, hhigh⟩)
  · have hlow : 65 ≤ c.toNat := (of_decide_eq_true hupper).1
    have hhigh : c.toNat ≤ 70 := by
      have hvalue := Option.some.inj h
      omega
    exact .inr ⟨hlow, hhigh⟩

theorem allHex_of_readOn {sofar n : Nat} {digits : List Char}
    (h : Numeral.readOn 16 sofar digits = some n) :
    AllHex digits := by
  induction digits generalizing sofar with
  | nil => exact List.forall_mem_nil _
  | cons c digits ih =>
    unfold Numeral.readOn at h
    split at h
    · rename_i d hdigit
      split_ifs at h with hd
      exact List.forall_mem_cons.mpr ⟨isHexDigit_of_digit? hdigit hd, ih h⟩
    · cases h

theorem readDigits_eq_some_iff {digits : List Char} (hne : digits ≠ []) {n : Nat} :
    Numeral.readDigits 16 digits = some n ↔ AllHex digits ∧ n = value 16 digits := by
  constructor
  · intro h
    have hhex : AllHex digits := by
      rw [Numeral.readDigits, if_neg (by simpa using hne)] at h
      exact allHex_of_readOn h
    rw [readDigits_eq hne fun c hc ↦ digit?_of_isHexDigit (hhex c hc)] at h
    exact ⟨hhex, (Option.some.inj h).symm⟩
  · rintro ⟨hhex, rfl⟩
    exact readDigits_eq hne fun c hc ↦ digit?_of_isHexDigit (hhex c hc)

theorem value_pair (high low : Char) :
    value 16 [high, low] = 16 * digitValue high + digitValue low := by
  simp [value, Nat.ofDigits_cons, Nat.add_comm]

/-- A pair is read as its digits, a sign in front of a digit left out. -/
theorem readNat_pair_eq_some_iff {high low : Char} {n : Nat} :
    Numeral.readNat 16 [high, low] = some n ↔
      (isHexDigit (withoutSign high) = true ∧ isHexDigit low = true) ∧
        n = 16 * digitValue (withoutSign high) + digitValue low := by
  by_cases hsign : high = '+'
  · subst hsign
    have hzero : value 16 [low] = 16 * digitValue '0' + digitValue low := by
      simp [value, show digitValue '0' = 0 by decide]
    have hdigit : isHexDigit '0' = true := by decide
    rw [Numeral.readNat, readDigits_eq_some_iff (List.cons_ne_nil _ _), hzero]
    simp [AllHex, withoutSign, hdigit]
  · have hplain : Numeral.readNat 16 [high, low] = Numeral.readDigits 16 [high, low] := by
      unfold Numeral.readNat
      split
      · rename_i hcons
        exact absurd (List.cons.inj hcons).1 hsign
      · rfl
    rw [hplain, readDigits_eq_some_iff (List.cons_ne_nil _ _), value_pair, withoutSign,
      if_neg hsign]
    simp [AllHex]

/-! ### All pairs -/

theorem readPairs_append {front : List Char} (h : front.length % 2 = 0) (high low : Char) :
    Literal.readPairs (front ++ [high, low]) =
      (Literal.readPairs front).bind fun data ↦
        (Numeral.readNat 16 [high, low]).map fun n ↦ data ++ [UInt8.ofNat n] := by
  fun_induction Literal.readPairs front with
  | case1 => cases hpair : Numeral.readNat 16 [high, low] <;> simp [Literal.readPairs, hpair]
  | case2 c => cases h
  | case3 a b front ih =>
    rw [List.cons_append, List.cons_append, Literal.readPairs,
      ih (by simp only [List.length_cons] at h; omega)]
    cases Numeral.readNat 16 [a, b] with
    | none => rfl
    | some n =>
      cases Literal.readPairs front with
      | none => rfl
      | some data => cases Numeral.readNat 16 [high, low] <;> rfl

/-- A pair behind some characters is read after them, whether they pair up or not. -/
theorem readBytes_append (front : List Char) (high low : Char) :
    Literal.readBytes (front ++ [high, low]) =
      (Literal.readBytes front).bind fun data ↦
        (Numeral.readNat 16 [high, low]).map fun n ↦ data ++ [UInt8.ofNat n] := by
  have hlength : (front ++ [high, low]).length % 2 = front.length % 2 := by simp
  rw [Literal.readBytes, Literal.readBytes, hlength]
  split_ifs with hodd
  · rw [← List.cons_append, readPairs_append (by rw [List.length_cons]; omega)]
  · rw [readPairs_append (by omega)]

theorem unsigned_append (front : List Char) (high low : Char) :
    unsigned (front ++ [high, low]) = unsigned front ++ [withoutSign high, low] := by
  simp [unsigned, unsignedFromEnd]

theorem bytesOf_append (front : List Char) (high low : Char) :
    bytesOf (front ++ [high, low]) = bytesOf front ++ [byteOf high low] := by
  simp [bytesOf, bytesFromEnd]

theorem allHex_append_pair {front : List Char} {high low : Char} :
    AllHex (front ++ [high, low]) ↔ AllHex front ∧ isHexDigit high = true ∧
      isHexDigit low = true := by
  simp only [AllHex, List.forall_mem_append, List.forall_mem_cons, List.not_mem_nil,
    IsEmpty.forall_iff, implies_true, and_true]

/-- A single character is read with a zero in front, so it has no sign. -/
theorem readBytes_singleton_eq_some_iff (low : Char) {data : List UInt8} :
    Literal.readBytes [low] = some data ↔ isHexDigit low = true ∧ data = [byteOf '0' low] := by
  have hpair := @readPairs_append [] rfl '0' low
  have hzero : isHexDigit (withoutSign '0') = true := by decide
  rw [List.nil_append] at hpair
  have hread : Literal.readBytes [low] = Literal.readPairs ['0', low] := rfl
  rw [hread, hpair]
  simp only [Literal.readPairs, Option.bind_some, Option.map_eq_some_iff, readNat_pair_eq_some_iff,
    hzero, true_and, List.nil_append]
  constructor
  · rintro ⟨n, ⟨hlow, rfl⟩, rfl⟩
    exact ⟨hlow, rfl⟩
  · rintro ⟨hlow, rfl⟩
    exact ⟨_, ⟨hlow, rfl⟩, rfl⟩

theorem readBytes_eq_some_iff (digits : List Char) {data : List UInt8} :
    Literal.readBytes digits = some data ↔ AllHex (unsigned digits) ∧
      data = bytesOf (unsigned digits) := by
  -- Pairs count from the last character, so the induction takes them off the reversed text.
  rw [← List.reverse_reverse digits]
  generalize digits.reverse = reversed
  induction reversed using bytesFromEnd.induct generalizing data with
  | case1 =>
    show some [] = some data ↔ AllHex [] ∧ data = []
    rw [Option.some_inj, eq_comm]
    exact (and_iff_right (List.forall_mem_nil _)).symm
  | case2 low =>
    show Literal.readBytes [low] = some data ↔ AllHex [low] ∧ data = [byteOf '0' low]
    rw [readBytes_singleton_eq_some_iff, AllHex, List.forall_mem_singleton]
  | case3 low high front ih =>
    have hreverse : (low :: high :: front).reverse = front.reverse ++ [high, low] := by simp
    rw [hreverse, readBytes_append, unsigned_append, bytesOf_append, allHex_append_pair]
    simp only [Option.bind_eq_some_iff, Option.map_eq_some_iff, ih, readNat_pair_eq_some_iff]
    constructor
    · rintro ⟨_, ⟨hfront, rfl⟩, n, ⟨hpair, rfl⟩, rfl⟩
      exact ⟨⟨hfront, hpair⟩, rfl⟩
    · rintro ⟨⟨hfront, hpair⟩, rfl⟩
      exact ⟨_, ⟨hfront, rfl⟩, _, ⟨hpair, rfl⟩, rfl⟩

/-- A digit is no plus sign, so digits are left as they are. -/
theorem unsigned_of_allHex {digits : List Char} (h : AllHex digits) : unsigned digits = digits := by
  rw [← List.reverse_reverse digits] at h ⊢
  generalize digits.reverse = reversed at h ⊢
  induction reversed using bytesFromEnd.induct with
  | case1 => rfl
  | case2 low => rfl
  | case3 low high front ih =>
    have hreverse : (low :: high :: front).reverse = front.reverse ++ [high, low] := by simp
    rw [hreverse] at h ⊢
    obtain ⟨hfront, hhigh, _⟩ := allHex_append_pair.mp h
    have hsign : high ≠ '+' := by
      rintro rfl
      exact absurd hhigh (by decide)
    rw [unsigned_append, ih hfront, withoutSign, if_neg hsign]

/-! ### Writing -/

section Writing

variable {token : Token} {resource : Resource} {field : String} {index : Nat} {slot : Slot}

theorem dataDigits?_text (hkind : token.kind = .string) :
    Literal.dataDigits? token.lexeme = some (digitsOf token) := by
  have hlexeme : token.lexeme.kind = .string := hkind
  simp only [Literal.dataDigits?, hlexeme]
  rfl

/-- A text is stored as the bytes of its digits, with signs in front of them left out. -/
theorem setLiteral_of_allHex_unsigned (hkind : token.kind = .string)
    (hslot : resource.template.find? field = some (index, slot)) (hdata : slot.type = .hexData)
    (h : AllHex (unsigned (digitsOf token))) :
    resource.setLiteral field token =
      (resource.setAt index (.bytes (bytesOf (unsigned (digitsOf token)))), .ok ()) := by
  refine setLiteral_of_means ⟨slot, hslot, ?_⟩
  have hread := (readBytes_eq_some_iff (digitsOf token)).mpr ⟨h, rfl⟩
  simp only [hdata, Literal.toValue, Literal.hexData, dataDigits?_text hkind, Option.bind_some,
    hread]

theorem setLiteral_of_not_allHex_unsigned (hkind : token.kind = .string)
    (hslot : resource.template.find? field = some (index, slot)) (hdata : slot.type = .hexData)
    (h : ¬ AllHex (unsigned (digitsOf token))) :
    resource.setLiteral field token = (resource, .error (.invalidLiteral field token.text)) := by
  have hnone : Literal.readBytes (digitsOf token) = none := by
    rw [Option.eq_none_iff_forall_ne_some]
    exact fun data hread ↦ h ((readBytes_eq_some_iff _).mp hread).1
  have hfault : Literal.toValue slot.type token.lexeme = .error .invalid := by
    simp only [hdata, Literal.toValue, Literal.hexData, dataDigits?_text hkind, Option.bind_some,
      hnone]
  exact setLiteral_of_fails (.refused hslot hfault)

/-- A data slot takes a text exactly if there are only digits in it once the signs in front of pairs
are left out, and then stores the bytes of these digits; any other text is an invalid literal and
changes nothing. So the slot takes the digits of a text for their bytes exactly if there are no such
signs, or something else that is refused for itself. -/
theorem setLiteral_text_iff (hkind : token.kind = .string)
    (hslot : resource.template.find? field = some (index, slot)) (hdata : slot.type = .hexData) :
    (∀ after, resource.setLiteral field token = (after, .ok ()) ↔
      AllHex (unsigned (digitsOf token)) ∧
        after = resource.setAt index (.bytes (bytesOf (unsigned (digitsOf token))))) ∧
    (¬ AllHex (unsigned (digitsOf token)) →
      resource.setLiteral field token = (resource, .error (.invalidLiteral field token.text))) ∧
    (TakesDigits resource field index token ↔
      unsigned (digitsOf token) = digitsOf token ∨ ¬ AllHex (unsigned (digitsOf token))) := by
  have haccepted (after : Resource) : resource.setLiteral field token = (after, .ok ()) ↔
      AllHex (unsigned (digitsOf token)) ∧
        after = resource.setAt index (.bytes (bytesOf (unsigned (digitsOf token)))) := by
    by_cases h : AllHex (unsigned (digitsOf token))
    · rw [setLiteral_of_allHex_unsigned hkind hslot hdata h, Prod.mk.injEq, and_iff_left rfl,
        and_iff_right h, eq_comm]
    · rw [setLiteral_of_not_allHex_unsigned hkind hslot hdata h, Prod.mk.injEq]
      exact iff_of_false (fun hsame ↦ nomatch hsame.2) fun hboth ↦ h hboth.1
  have hrefused (h : ¬ AllHex (unsigned (digitsOf token))) :=
    setLiteral_of_not_allHex_unsigned hkind hslot hdata h
  refine ⟨haccepted, hrefused, fun hlaw ↦ ?_, fun hplain ↦ ?_⟩
  · by_contra hsigned
    obtain ⟨hne, hhex⟩ := not_or.mp hsigned
    rw [not_not] at hhex
    exact hne (unsigned_of_allHex (hlaw.accepted_iff.mp ⟨_, (haccepted _).mpr ⟨hhex, rfl⟩⟩))
  · have hsame : AllHex (unsigned (digitsOf token)) ↔ AllHex (digitsOf token) := by
      rcases hplain with heq | hnot
      · rw [heq]
      · exact iff_of_false hnot fun hhex ↦ hnot ((unsigned_of_allHex hhex).symm ▸ hhex)
    refine ⟨?_, fun hhex ↦ ?_, fun hnot ↦ hrefused (mt hsame.mp hnot)⟩
    · rw [← hsame]
      exact ⟨fun ⟨after, hafter⟩ ↦ ((haccepted after).mp hafter).1, fun hhex ↦
        ⟨_, (haccepted _).mpr ⟨hhex, rfl⟩⟩⟩
    · exact (haccepted _).mpr ⟨hsame.mpr hhex, by rw [unsigned_of_allHex hhex]⟩

end Writing

/-- A string token at the start of a text. -/
def quoted (text : String) : Token := ⟨.plain .string text, .start, none⟩

/-- Five characters and three bytes, one of which is written with a sign. -/
theorem setLiteral_text_iff_signed :
    (quoted "7 +b\n0C").kind = .string ∧
      cargo.find? "seal" = some (3, ⟨.synthetic .identifier "seal", .hexData⟩) ∧
        (Resource.blank cargo "CRGO" 128 "").setLiteral "seal" (quoted "7 +b\n0C") =
          ((Resource.blank cargo "CRGO" 128 "").setAt 3 (.bytes [0x07, 0x0B, 0x0C]), .ok ()) ∧
        ¬ TakesDigits (.blank cargo "CRGO" 128 "") "seal" 3 (quoted "7 +b\n0C") := by
  have hseal : cargo.find? "seal" = some (3, ⟨.synthetic .identifier "seal", .hexData⟩) := rfl
  have hunsigned : unsigned (digitsOf (quoted "7 +b\n0C")) = "70b0C".toList := by decide
  have hhex : AllHex "70b0C".toList := by simp [AllHex, isHexDigit]
  obtain ⟨haccepted, _, hlaw⟩ :=
    @setLiteral_text_iff (quoted "7 +b\n0C") (.blank cargo "CRGO" 128 "") "seal" 3 _ rfl hseal rfl
  rw [hunsigned] at haccepted hlaw
  refine ⟨rfl, hseal, (haccepted _).mpr ⟨hhex, ?_⟩, fun htakes ↦ ?_⟩
  · have hbytes : bytesOf "70b0C".toList = [0x07, 0x0B, 0x0C] := by decide
    rw [hbytes]
  · rcases hlaw.mp htakes with hplain | hnot
    · exact absurd hplain (by decide)
    · exact hnot hhex

/-- A text of a sign and a digit is taken for a byte, although it is not made of digits. -/
theorem not_takesDigits_signed :
    (Lexer.ofText "\"+1\"").resume.1 = .ok [quoted "+1"] ∧
      (Resource.blank cargo "CRGO" 128 "").setLiteral "seal" (quoted "+1") =
        ((Resource.blank cargo "CRGO" 128 "").setAt 3 (.bytes [0x01]), .ok ()) ∧
      ¬ TakesDigits (.blank cargo "CRGO" 128 "") "seal" 3 (quoted "+1") := by
  have hset : (Resource.blank cargo "CRGO" 128 "").setLiteral "seal" (quoted "+1") =
      ((Resource.blank cargo "CRGO" 128 "").setAt 3 (.bytes [0x01]), .ok ()) := rfl
  refine ⟨by decide +kernel, hset, fun htakes ↦ ?_⟩
  have hsign : isHexDigit '+' = true := htakes.accepted_iff.mp ⟨_, hset⟩ '+' (by decide)
  exact absurd hsign (by decide)

end ResourceLang.Proofs.PairedDigits
