import Mathlib.Data.List.Induction
import Mathlib.Data.Nat.Digits.Defs
import Mathlib.Tactic.IntervalCases
import ResourceLang.Proofs.BytePlaces

/-!
Tokens that stand for numbers. A lexer writes them in one of three ways: digits, a minus sign and
digits, or `0x` and hexadecimal digits. What the digits denote is their value as digits of the
radix, however many they are, and a literal is read as that number as long as 64 bits hold it.
-/

set_option autoImplicit false
set_option relaxedAutoImplicit false

namespace ResourceLang.Proofs.NumericTokens

open Text Token Token.Scan LexemeGrammar ScannerRun ScannerPath RepeatedCalls BytePlaces

/-! ### Tokens of a lexer -/

/-- A token that a lexer gives in some call, the first or a later one. -/
def Lexed (token : Token) : Prop :=
  ∃ source text count tokens, (afterCalls (opened source text) count).resume.1 = .ok tokens ∧
    token ∈ tokens

theorem lexical_of_path {source : Option SourceId} {scanner last : Scanner} {tokens : List Token}
    (h : Path source scanner tokens last) : ∀ token ∈ tokens, Lexical token.lexeme := by
  induction h with
  | stay scanner => exact List.forall_mem_nil _
  | step hstep _ ih =>
    obtain ⟨gap, taken, hpasses⟩ := passes_of_step hstep
    exact List.forall_mem_cons.mpr ⟨hpasses.sound.lexical, ih⟩

/-- All tokens that a lexer holds are lexemes of the grammar. -/
def HoldsLexical (lexer : Lexer) : Prop :=
  ∀ tokens, lexer.tokens = some tokens → ∀ token ∈ tokens, Lexical token.lexeme

theorem lexical_of_resume {lexer : Lexer} (h : HoldsLexical lexer) :
    (∀ tokens, lexer.resume.1 = .ok tokens → ∀ token ∈ tokens, Lexical token.lexeme) ∧
      HoldsLexical lexer.resume.2 := by
  cases htokens : lexer.tokens with
  | some held =>
    rw [resume_of_tokens htokens]
    refine ⟨?_, h⟩
    rintro tokens ⟨⟩
    exact h held htokens
  | none =>
    cases hrun : lexer.scanner.run lexer.source [] with
    | mk result scanner =>
      rw [resume_of_none htokens hrun]
      cases result with
      | error error => exact ⟨nofun, nofun⟩
      | ok read =>
        obtain ⟨later, last, hlater, hpath, _⟩ := path_of_run_ok hrun
        obtain rfl : read = later := hlater
        refine ⟨?_, ?_⟩
        · rintro tokens ⟨⟩
          exact lexical_of_path hpath
        · rintro tokens ⟨⟩
          exact lexical_of_path hpath

theorem holdsLexical_afterCalls (source : Option SourceId) (text : String) (count : Nat) :
    HoldsLexical (afterCalls (opened source text) count) := by
  induction count with
  | zero => exact nofun
  | succ count ih => exact (lexical_of_resume ih).2

theorem Lexed.lexical {token : Token} (h : Lexed token) : Lexical token.lexeme := by
  obtain ⟨source, text, count, tokens, htokens, htoken⟩ := h
  exact (lexical_of_resume (holdsLexical_afterCalls source text count)).1 tokens htokens token
    htoken

/-! ### Digits -/

/-- The place of a digit among the digits, those beyond nine being letters in either case. -/
def digitValue (c : Char) : Nat := "0123456789abcdef".toList.idxOf c.toLower

/-- What digits denote, the first being the most significant. -/
def value (radix : Nat) (digits : List Char) : Nat :=
  Nat.ofDigits radix (digits.map digitValue).reverse

theorem value_concat (radix : Nat) (digits : List Char) (c : Char) :
    value radix (digits ++ [c]) = value radix digits * radix + digitValue c := by
  simp only [value, List.map_append, List.map_singleton, List.reverse_append,
    List.reverse_singleton, List.singleton_append, Nat.ofDigits_cons]
  rw [Nat.add_comm, Nat.mul_comm]

theorem toNat_of_isHexDigit {c : Char} (h : isHexDigit c = true) :
    48 ≤ c.toNat ∧ c.toNat ≤ 57 ∨ 97 ≤ c.toNat ∧ c.toNat ≤ 102 ∨ 65 ≤ c.toNat ∧ c.toNat ≤ 70 := by
  simpa [isHexDigit, Char.isDigit, Char.le_def, UInt32.le_iff_toNat_le, or_assoc] using h

theorem digit?_of_isHexDigit {c : Char} (h : isHexDigit c = true) :
    Numeral.digit? c = some (digitValue c) ∧ digitValue c < 16 := by
  have hrange := toNat_of_isHexDigit h
  rw [← Char.ofNat_toNat c]
  generalize c.toNat = n at hrange
  rcases hrange with ⟨hlow, hhigh⟩ | ⟨hlow, hhigh⟩ | ⟨hlow, hhigh⟩ <;> interval_cases n <;> decide

theorem digit?_of_isDigit {c : Char} (h : c.isDigit = true) :
    Numeral.digit? c = some (digitValue c) ∧ digitValue c < 10 := by
  have hrange : 48 ≤ c.toNat ∧ c.toNat ≤ 57 := by
    simpa [Char.isDigit, Char.le_def, UInt32.le_iff_toNat_le] using h
  rw [← Char.ofNat_toNat c]
  generalize c.toNat = n at hrange
  obtain ⟨hlow, hhigh⟩ := hrange
  interval_cases n <;> decide

theorem readDigits_eq {radix : Nat} {digits : List Char} (hne : digits ≠ [])
    (h : ∀ c ∈ digits, Numeral.digit? c = some (digitValue c) ∧ digitValue c < radix) :
    Numeral.readDigits radix digits = some (value radix digits) := by
  rw [Numeral.readDigits, if_neg (by simpa using hne)]
  clear hne
  -- What is read so far is carried on to the next digit, so the induction takes digits off the end.
  induction digits using List.reverseRecOn with
  | nil => rfl
  | append_singleton digits c ih =>
    obtain ⟨hdigits, hc⟩ := List.forall_mem_append.mp h
    obtain ⟨hdigit, hlt⟩ := hc c List.mem_cons_self
    rw [Numeral.readOn_append, ih hdigits, value_concat, Option.bind_some, Numeral.readOn, hdigit]
    simp [hlt, Numeral.readOn]

theorem readNat_eq_readDigits {radix : Nat} {digits : List Char} (h : '+' ∉ digits) :
    Numeral.readNat radix digits = Numeral.readDigits radix digits := by
  unfold Numeral.readNat
  split
  · exact absurd List.mem_cons_self h
  · rfl

theorem readNat_of_isDigits {digits : List Char} (h : IsDigits digits) :
    Numeral.readNat 10 digits = some (value 10 digits) := by
  have hplus : '+' ∉ digits := fun hmem ↦ Bool.false_ne_true (h.2 _ hmem)
  rw [readNat_eq_readDigits hplus, readDigits_eq h.1 fun c hc ↦ digit?_of_isDigit (h.2 c hc)]

theorem readNat_of_isHexDigits {digits : List Char} (h : IsHexDigits digits) :
    Numeral.readNat 16 digits = some (value 16 digits) := by
  have hplus : '+' ∉ digits := fun hmem ↦ Bool.false_ne_true (h.2 _ hmem)
  rw [readNat_eq_readDigits hplus, readDigits_eq h.1 fun c hc ↦ digit?_of_isHexDigit (h.2 c hc)]

/-! ### Literals as they are written -/

/-- The ways to write a number. -/
inductive Written
  | decimal (digits : List Char)
  | negative (digits : List Char)
  | hexadecimal (digits : List Char)

namespace Written

def text : Written → List Char
  | decimal digits => digits
  | negative digits => '-' :: digits
  | hexadecimal digits => '0' :: 'x' :: digits

/-- The literal of a text. -/
def ofText : List Char → Written
  | '-' :: digits => negative digits
  | '0' :: 'x' :: digits => hexadecimal digits
  | digits => decimal digits

/-- There are digits, and they are of the radix. -/
def Legal : Written → Prop
  | decimal digits => IsDigits digits
  | negative digits => IsDigits digits
  | hexadecimal digits => IsHexDigits digits

/-- What a literal denotes. -/
def number : Written → Int
  | decimal digits => value 10 digits
  | negative digits => -value 10 digits
  | hexadecimal digits => value 16 digits

end Written

/-- A lexeme that stands for a number, and how it is written. -/
structure Writes (lexeme : Lexeme) (written : Written) : Prop where
  kind : lexeme.kind = .integer ∨ lexeme.kind = .percentage
  legal : written.Legal
  text : lexeme.text.toList = written.text

/-- A lexeme that carries a number: all of its text, or the last component of a resource id, is how
it is written. -/
structure Carries (lexeme : Lexeme) (written : Written) : Prop where
  numeric : lexeme.kind.isNumeric = true
  legal : written.Legal
  text : lexeme.numericText.toList = written.text

variable {text : String} {lexeme : Lexeme} {written : Written}

/-- How a text is written tells which literal it is. -/
theorem eq_ofText (h : written.Legal) : written = .ofText written.text := by
  cases written with
  | negative digits => rfl
  | hexadecimal digits => rfl
  | decimal digits =>
    show Written.decimal digits = .ofText digits
    unfold Written.ofText
    split
    · exact absurd (h.2 '-' (by simp)) (by decide)
    · exact absurd (h.2 'x' (by simp)) (by decide)
    · rfl

theorem exists_written_of_isDecimal {number : List Char} (h : IsDecimal number) :
    ∃ written : Written, written.Legal ∧ number = written.text := by
  rcases h with hdigits | ⟨digits, rfl, hdigits⟩
  · exact ⟨.decimal number, hdigits, rfl⟩
  · exact ⟨.negative digits, hdigits, rfl⟩

theorem exists_writes_of_lexical (h : Lexical lexeme)
    (hkind : lexeme.kind = .integer ∨ lexeme.kind = .percentage) :
    ∃ written, Writes lexeme written := by
  cases h with
  | @integer number hnumber =>
    obtain ⟨written, hlegal, htext⟩ := exists_written_of_isDecimal hnumber
    exact ⟨written, hkind, hlegal, String.toList_ofList.trans htext⟩
  | @percentage number hnumber =>
    obtain ⟨written, hlegal, htext⟩ := exists_written_of_isDecimal hnumber
    exact ⟨written, hkind, hlegal, String.toList_ofList.trans htext⟩
  | @hexadecimal digits hdigits => exact ⟨.hexadecimal digits, hkind, hdigits, String.toList_ofList⟩
  | @symbol kind text htext =>
    have hsymbol : kind = .integer ∨ kind = .percentage := hkind
    rcases hsymbol with rfl | rfl <;> cases htext
  | _ => rcases hkind with hkind | hkind <;> cases hkind

/-! ### Reading -/

theorem hexDigits?_eq_none (h : written.Legal)
    (hdecimal : ∀ digits, written ≠ .hexadecimal digits) :
    Lexeme.hexDigits? written.text = none := by
  cases written with
  | hexadecimal digits => exact absurd rfl (hdecimal digits)
  | negative digits => rfl
  | decimal digits =>
    show Lexeme.hexDigits? digits = none
    unfold Lexeme.hexDigits?
    split
    · exact absurd (h.2 'x' (by simp)) (by decide)
    · exact absurd (h.2 'X' (by simp)) (by decide)
    · rfl

theorem readInt_text (h : written.Legal) (hdecimal : ∀ digits, written ≠ .hexadecimal digits) :
    Numeral.readInt 10 written.text = some written.number := by
  cases written with
  | hexadecimal digits => exact absurd rfl (hdecimal digits)
  | negative digits =>
    show (Numeral.readDigits 10 digits).map (fun n ↦ -(n : Int)) = some (-value 10 digits : Int)
    rw [readDigits_eq h.1 fun c hc ↦ digit?_of_isDigit (h.2 c hc)]
    rfl
  | decimal digits =>
    show Numeral.readInt 10 digits = some (value 10 digits : Int)
    unfold Numeral.readInt
    split
    · exact absurd (h.2 '-' (by simp)) (by decide)
    · rw [readNat_of_isDigits h]
      rfl

theorem filter_some_eq_some_iff {α : Type} {p : α → Bool} {a b : α} :
    (some a).filter p = some b ↔ b = a ∧ p b = true := by
  rw [Option.filter_eq_some_iff, Option.some_inj, eq_comm]

/-- A literal is read without a sign if it has none and 64 bits hold what it denotes. -/
theorem readUnsigned?_eq_some_iff (h : written.Legal) (htext : text.toList = written.text)
    {n : Nat} :
    Lexeme.readUnsigned? text = some n ↔
      (n : Int) = written.number ∧ n < UInt64.size ∧ ∀ digits, written ≠ .negative digits := by
  rw [Lexeme.readUnsigned?, htext]
  cases written with
  | decimal digits =>
    rw [hexDigits?_eq_none h nofun]
    simp only [Written.text, readNat_of_isDigits h, filter_some_eq_some_iff]
    simp [Written.number]
  | negative digits =>
    have hnone : Numeral.readNat 10 ('-' :: digits) = none := rfl
    rw [hexDigits?_eq_none h nofun]
    simp [Written.text, hnone]
  | hexadecimal digits =>
    show (Numeral.readNat 16 digits).filter (· < UInt64.size) = some n ↔ _
    simp only [readNat_of_isHexDigits h, filter_some_eq_some_iff]
    simp [Written.number]

/-- A literal that is not hexadecimal is read with its sign if 64 bits hold what it denotes. -/
theorem readSigned?_eq_some_iff (h : written.Legal) (htext : text.toList = written.text)
    (hdecimal : ∀ digits, written ≠ .hexadecimal digits) {n : Int} :
    Lexeme.readSigned? text = some n ↔
      n = written.number ∧ Int64.minValue.toInt ≤ n ∧ n ≤ Int64.maxValue.toInt := by
  rw [Lexeme.readSigned?, htext, hexDigits?_eq_none h hdecimal, readInt_text h hdecimal]
  simp only [filter_some_eq_some_iff, decide_eq_true_eq]

theorem Writes.isNumeric (h : Writes lexeme written) : lexeme.kind.isNumeric = true := by
  rcases h.kind with hkind | hkind <;> rw [hkind] <;> rfl

theorem Writes.carries (h : Writes lexeme written) : Carries lexeme written := by
  refine ⟨h.isNumeric, h.legal, ?_⟩
  rw [← h.text, Lexeme.numericText]
  rcases h.kind with hkind | hkind <;> rw [hkind]

/-- What is written in a lexeme hangs on the lexeme alone. -/
theorem Carries.unique {other : Written} (h : Carries lexeme written)
    (hother : Carries lexeme other) :
    written = other := by
  rw [eq_ofText h.legal, eq_ofText hother.legal, ← h.text, ← hother.text]

theorem precedence?_of_isNumeric {kind : Kind} (h : kind.isNumeric = true) :
    kind.precedence? = none := by
  cases kind <;> first | rfl | cases h

theorem Carries.unsignedNumber_eq_ok_iff (h : Carries lexeme written) {n : Nat} :
    lexeme.unsignedNumber = .ok n ↔
      (n : Int) = written.number ∧ n < UInt64.size ∧ ∀ digits, written ≠ .negative digits := by
  rw [← readUnsigned?_eq_some_iff h.legal h.text, Lexeme.unsignedNumber, if_pos h.numeric]
  cases Lexeme.readUnsigned? lexeme.numericText <;> simp

theorem Carries.number_eq_ok_iff (h : Carries lexeme written)
    (hdecimal : ∀ digits, written ≠ .hexadecimal digits) {n : Int} :
    lexeme.number = .ok n ↔
      n = written.number ∧ Int64.minValue.toInt ≤ n ∧ n ≤ Int64.maxValue.toInt := by
  rw [← readSigned?_eq_some_iff h.legal h.text hdecimal, Lexeme.number,
    precedence?_of_isNumeric h.numeric]
  cases hread : Lexeme.readSigned? lexeme.numericText <;> simp [h.numeric]

end ResourceLang.Proofs.NumericTokens
