import Mathlib.Algebra.Group.Nat.Defs
import ResourceLang.Proofs.BytePlaces
import ResourceLang.Proofs.ExpressionGrammar
import ResourceLang.Proofs.SourceCover

/-!
Expressions in a text. The tokens of a text form closed expressions, with one at its end that may be
open, and the parentheses within each are nested. A parenthesis of the text that is no part of a
string or of a comment is a token by itself, and it closes an expression exactly if it is the first
unmatched one. The counter that tells the two apart fits a signed word of 32 bits where the text has
fewer than `2 ^ 31` bytes.
-/

set_option autoImplicit false
set_option relaxedAutoImplicit false

namespace ResourceLang.Proofs.ExpressionNesting

open Text Token Token.Scan LexemeGrammar CutSoundness ScannerRun Utf8Reading PlaceShift SourceCover
  ScannerPath
  BytePlaces ExpressionGrammar

/-! ### Parentheses of the text -/

/-- The kinds that a closing parenthesis can have. -/
def IsClosing (kind : Kind) : Prop := kind = .rightParen ∨ kind = .expressionClose

theorem not_mem_of_isHexDigits {digits : List Char} (h : IsHexDigits digits) : ')' ∉ digits :=
  not_mem_of_class rfl h.2

/-- Only strings and closing parentheses are spelled with one. -/
theorem closing_of_spells {lexeme : Lexeme} {taken : List Char} (h : Lexical lexeme)
    (hspells : Spells lexeme taken) (hmem : ')' ∈ taken) :
    lexeme.kind = .string ∨ IsClosing lexeme.kind ∧ taken = [')'] := by
  rcases hspells with rfl | ⟨digits, hdigits, _, rfl⟩
  · cases h with
    | directive hname =>
      rw [spelling_plain] at hmem
      have hnot : ')' ∉ _ := not_mem_of_class rfl hname
      simp [LexemeGrammar.marked, hnot] at hmem
    | variableName hname =>
      rw [spelling_plain] at hmem
      have hnot : ')' ∉ _ := not_mem_of_class rfl hname.2
      simp [LexemeGrammar.marked, hnot] at hmem
    | @identifier first name hfirst hname =>
      rw [spelling_plain] at hmem
      have hnot : ')' ∉ _ := not_mem_of_class rfl hname
      have hne : ')' ≠ first := by
        rintro rfl
        cases hfirst
      simp [LexemeGrammar.marked, hnot, hne] at hmem
    | integer hnumber =>
      rw [spelling_plain] at hmem
      exact absurd hmem (not_mem_of_isDecimal rfl (by decide) hnumber)
    | hexadecimal hdigits =>
      rw [spelling_plain] at hmem
      simp [LexemeGrammar.marked, not_mem_of_isHexDigits hdigits] at hmem
    | percentage hnumber =>
      rw [spelling_plain] at hmem
      simp [LexemeGrammar.marked, @not_mem_of_isDecimal ')' rfl (by decide) _ hnumber] at hmem
    | string hbody => exact .inl rfl
    | auto =>
      exact absurd hmem (by decide)
    | @resourceId names number hcount hnames hnumber hauto =>
      rw [spelling_resourceId] at hmem
      have hnot : ∀ name ∈ names, ')' ∉ name := fun name hname ↦
        not_mem_of_class rfl (hnames name hname).2
      simp only [List.mem_cons, List.mem_append, List.mem_flatMap, List.not_mem_nil, or_false,
        @not_mem_of_isDecimal ')' rfl (by decide) _ hnumber] at hmem
      rcases hmem with hmark | ⟨name, hname, hletter | hdot⟩
      · exact absurd hmark (by decide)
      · exact absurd hletter (not_mem_of_class rfl (hnames name hname).2)
      · exact absurd hdot (by decide)
    | @symbol kind text htext =>
      rw [spelling_symbol htext] at hmem ⊢
      right
      cases kind
      case rightParen | expressionClose =>
        obtain rfl := Option.some.inj htext
        exact ⟨by simp [IsClosing, Lexeme.plain], rfl⟩
      all_goals
        cases htext
        try exact absurd hmem (by decide)
  · simp [not_mem_of_isHexDigits hdigits] at hmem

/-! ### Where a position lies -/

/-- The position lies before the first token, between two tokens or behind the last. -/
def InGap (bytes : List UInt8) (start : Nat) (tokens : List Token) (ends : List Nat)
    (position : Nat) : Prop :=
  ∃ gap ∈ (start :: ends).zip (tokens.map (·.place.position) ++ [bytes.length]),
    gap.1 ≤ position ∧ position < gap.2

/-- The position lies within a string. -/
def InString (tokens : List Token) (ends : List Nat) (position : Nat) : Prop :=
  ∃ span ∈ tokens.zip ends, span.1.kind = .string ∧ span.1.place.position ≤ position ∧
    position < span.2

theorem inGap_cons {bytes : List UInt8} {start stop position : Nat} {token : Token}
    {tokens : List Token} {ends : List Nat} (h : InGap bytes stop tokens ends position) :
    InGap bytes start (token :: tokens) (stop :: ends) position := by
  obtain ⟨gap, hgap, hlies⟩ := h
  exact ⟨gap, List.mem_cons_of_mem _ hgap, hlies⟩

/-- Every position from the start on lies in a gap or within a token. -/
theorem inGap_or_span {bytes : List UInt8} {start position : Nat} {tokens : List Token}
    {ends : List Nat} (h : Cover bytes start tokens ends) (hstart : start ≤ position)
    (hstop : position < bytes.length) :
    InGap bytes start tokens ends position ∨
      ∃ span ∈ tokens.zip ends, span.1.place.position ≤ position ∧ position < span.2 := by
  induction tokens generalizing start ends with
  | nil =>
    obtain rfl := List.eq_nil_of_length_eq_zero h.length_eq
    exact .inl ⟨(start, bytes.length), by simp, hstart, hstop⟩
  | cons token tokens ih =>
    obtain ⟨stop, ends, rfl⟩ := List.exists_cons_of_length_eq_add_one h.length_eq
    obtain ⟨hspan, hspans⟩ := List.forall_mem_cons.mp h.spans
    obtain ⟨hgap, hgaps⟩ := List.forall_mem_cons.mp h.gaps
    by_cases hbefore : position < token.place.position
    · exact .inl ⟨(start, token.place.position), List.mem_cons_self, hstart, hbefore⟩
    by_cases hwithin : position < stop
    · exact .inr ⟨(token, stop), List.mem_cons_self, Nat.le_of_not_lt hbefore, hwithin⟩
    rcases ih ⟨Nat.succ.inj h.length_eq, hspans, hgaps⟩ (Nat.le_of_not_lt hwithin) with
      hlater | ⟨span, hmem, hlies⟩
    · exact .inl (inGap_cons hlater)
    · exact .inr ⟨span, List.mem_cons_of_mem _ hmem, hlies⟩

/-- A token with a closing parenthesis among its bytes is a string, or it is that parenthesis. -/
theorem closing_of_span {bytes : List UInt8} {token : Token} {stop position : Nat}
    (h : Span bytes token stop) (hstart : token.place.position ≤ position) (hstop : position < stop)
    (hparen : bytes[position]? = some 0x29) :
    token.kind = .string ∨ IsClosing token.kind ∧ token.place.position = position := by
  obtain ⟨taken, hspells, hbytes⟩ := h.spelled
  have hindex : (Utf8.encode taken)[position - token.place.position]? = some 0x29 := by
    rw [← hbytes, List.extract_eq_take_drop, List.getElem?_take_of_lt (by omega),
      List.getElem?_drop, Nat.add_sub_cancel' hstart, hparen]
  have hmem : ')' ∈ taken :=
    (@ascii_mem_encode ')' (by decide) taken).mp (List.mem_of_getElem? hindex)
  rcases closing_of_spells h.lexical hspells hmem with hstring | ⟨hkind, rfl⟩
  · exact .inl hstring
  · obtain ⟨hlt, _⟩ := List.getElem?_eq_some_iff.mp hindex
    have hone : (Utf8.encode [')']).length = 1 := rfl
    exact .inr ⟨hkind, by omega⟩

/-- A closing parenthesis of the text lies between the tokens, within a string, or is a token by
itself. -/
theorem closing_of_cover {bytes : List UInt8} {tokens : List Token} {ends : List Nat}
    (h : Cover bytes 0 tokens ends) {position : Nat} (hparen : bytes[position]? = some 0x29) :
    InGap bytes 0 tokens ends position ∨ InString tokens ends position ∨
      ∃ token ∈ tokens, IsClosing token.kind ∧ token.place.position = position := by
  obtain ⟨hlt, _⟩ := List.getElem?_eq_some_iff.mp hparen
  rcases inGap_or_span h (Nat.zero_le _) hlt with hgap | ⟨span, hspan, hstart, hstop⟩
  · exact .inl hgap
  · rcases closing_of_span (h.spans span hspan) hstart hstop hparen with hstring | hclosing
    · exact .inr (.inl ⟨span, hspan, hstring, hstart, hstop⟩)
    · exact .inr (.inr ⟨span.1, (List.of_mem_zip hspan).1, hclosing⟩)

/-! ### The counter -/

/-- How many parentheses are open, with the one that opened the expression. -/
def unclosed : Mode → Nat
  | .outside => 0
  | .inside depth => depth + 1

theorem unclosed_after?_le {mode next : Mode} {kind : Kind} (h : after? mode kind = some next) :
    unclosed next ≤ unclosed mode + 1 := by
  by_cases hmodal : kind ∈ modal
  · simp only [modal, List.mem_cons, List.not_mem_nil, or_false] at hmodal
    rcases mode with _ | _ | depth <;> rcases hmodal with
      rfl | rfl | rfl | rfl | rfl <;> cases h <;>
      simp [unclosed]
  · rw [after?_eq_self hmodal] at h
    obtain rfl := Option.some.inj h
    exact Nat.le_succ _

/-- A scanner has passed over one byte at least for every parenthesis that is open. -/
theorem unclosed_le_of_path {source : Option SourceId} {scanner last : Scanner}
    {tokens : List Token} (h : Path source scanner tokens last)
    (hstart : unclosed scanner.mode ≤ scanner.place.position) :
    unclosed last.mode ≤ last.place.position := by
  induction h with
  | stay scanner => exact hstart
  | @step scanner next last token tokens hstep _ ih =>
    obtain ⟨gap, taken, hpasses⟩ := passes_of_step hstep
    have hopened : unclosed next.mode ≤ unclosed scanner.mode + 1 :=
      unclosed_after?_le hpasses.sound.steers
    have hpos := List.length_pos_iff.mpr (encode_ne_nil hpasses.taken_ne)
    refine ih ?_
    rw [hpasses.after_eq, hpasses.place_eq, position_after, position_after]
    omega

/-- The counter of a mode as a signed word of 32 bits. -/
def balance? : Mode → Option Int32
  | .outside => none
  | .inside depth => some (Int32.ofNat depth)

/-- What a closing parenthesis comes to where the counter is a signed word and its sign alone is
looked at. -/
def closeBySign (balance : Int32) : Kind × Option Int32 :=
  if balance ≤ 0 then (.expressionClose, none) else (.rightParen, some (balance - 1))

/-- A signed word of 32 bits counts as many open parentheses, and one more, without wrapping around,
and its sign tells how the next one closes. -/
structure FitsWord (depth : Nat) : Prop where
  exact : (Int32.ofNat depth).toInt = depth
  opens : (Int32.ofNat depth + 1).toInt = depth + 1
  closes : closeBySign (Int32.ofNat depth) =
    ((Mode.inside depth).afterClose.1, balance? (Mode.inside depth).afterClose.2)

theorem fitsWord_of_lt {depth : Nat} (h : depth + 1 < 2 ^ 31) : FitsWord depth := by
  have hexact : (Int32.ofNat depth).toInt = depth := Int32.toInt_ofNat_of_lt (by omega)
  refine ⟨hexact, ?_, ?_⟩
  · have hnext : Int32.ofNat depth + 1 = Int32.ofNat (depth + 1) := (Int32.ofNat_add depth 1).symm
    rw [hnext, Int32.toInt_ofNat_of_lt h]
    rfl
  · cases depth with
    | zero => rfl
    | succ depth =>
      have hpositive : ¬ Int32.ofNat (depth + 1) ≤ 0 := by
        rw [Int32.le_iff_toInt_le, hexact, Int32.toInt_zero]
        omega
      have hless : Int32.ofNat (depth + 1) - 1 = Int32.ofNat depth := by
        rw [Int32.ofNat_add]
        exact Int32.add_sub_cancel _ _
      rw [closeBySign, if_neg hpositive, hless]
      rfl

theorem fitsWord_of_path {text : String} (hsize : text.utf8ByteSize < 2 ^ 31) {last : Scanner}
    {tokens : List Token} (h : Path none (.ofText text) tokens last) {depth : Nat}
    (hmode : last.mode = .inside depth) : FitsWord depth := by
  have hopened := unclosed_le_of_path h (Nat.le_refl 0)
  have hplace := (located_of_placeIn ((standsIn_ofText text).path h).2.placeIn).1
  rw [← utf8ByteSize_eq_length_encode] at hplace
  rw [hmode, unclosed] at hopened
  exact fitsWord_of_lt (by omega)

/-! ### Texts -/

/-- How expressions and parentheses lie in a text. -/
structure ExpressionLaw (text : String) (tokens : List Token) : Prop where
  alternates : Alternates (tokens.map Token.kind)
  structured : Structured (tokens.map Token.kind)
  closes_iff : ∀ before token later, tokens = before ++ token :: later → IsClosing token.kind →
    (token.kind = .expressionClose ↔ FirstUnmatched (before.map Token.kind))
  parens : ∃ ends, Cover (Utf8.bytes text) 0 tokens ends ∧
    ∀ position, (Utf8.bytes text)[position]? = some 0x29 →
      InGap (Utf8.bytes text) 0 tokens ends position ∨ InString tokens ends position ∨
        ∃ token ∈ tokens, IsClosing token.kind ∧ token.place.position = position
  counter : ∀ front last, Path none (.ofText text) front last →
    ∀ depth, last.mode = .inside depth → FitsWord depth

/-- The tokens of a text that is short enough to count its parentheses in a signed word. -/
theorem expressionLaw_of_tokenize {text : String} {tokens : List Token}
    (hsize : text.utf8ByteSize < 2 ^ 31) (h : tokenize text = .ok tokens) :
    ExpressionLaw text tokens := by
  obtain ⟨last, _, hpath, _⟩ := path_of_tokenize_ok h
  have hkinds := afterAll?_of_path hpath
  have hstructured : Structured (tokens.map Token.kind) :=
    structured_of_shaped (@shaped_afterAll? .outside last.mode [] _ Closed.nil hkinds)
  refine ⟨alternates_of_structured hstructured, hstructured, ?_, ?_,
    fun front last hfront depth ↦ fitsWord_of_path hsize hfront⟩
  · rintro before token later rfl hclosing
    rw [List.map_append] at hkinds
    obtain ⟨mode, hbefore, hrest⟩ := afterAll?_append_eq_some hkinds
    rw [List.map_cons, afterAll?, List.foldlM_cons] at hrest
    obtain ⟨next, hnext, _⟩ := Option.bind_eq_some_iff.mp hrest
    exact eq_expressionClose_iff hbefore hnext hclosing
  · rw [tokenize_eq] at h
    obtain ⟨later, ends, hlater, hcover⟩ := cover_of_run [] (Prod.ext h rfl) rfl
    obtain rfl : tokens = later := hlater
    exact ⟨ends, hcover, fun position ↦ closing_of_cover hcover⟩

/-- Parentheses outside of expressions, in a string and in a comment, one expression that is closed
and one that is not. -/
def parenthesised : String := ") $(f(\")\") \x60)\n) ( $((b"

def parenthesisedTokens : List Token :=
  [⟨.plain .rightParen ")", ⟨0, 1, 0⟩, none⟩, ⟨.plain .expressionOpen "$(", ⟨2, 1, 2⟩, none⟩,
    ⟨.plain .identifier "f", ⟨4, 1, 4⟩, none⟩, ⟨.plain .leftParen "(", ⟨5, 1, 5⟩, none⟩,
    ⟨.plain .string ")", ⟨6, 1, 6⟩, none⟩, ⟨.plain .rightParen ")", ⟨9, 1, 9⟩, none⟩,
    ⟨.plain .expressionClose ")", ⟨14, 2, 0⟩, none⟩, ⟨.plain .leftParen "(", ⟨16, 2, 2⟩, none⟩,
    ⟨.plain .expressionOpen "$(", ⟨18, 2, 4⟩, none⟩, ⟨.plain .leftParen "(", ⟨20, 2, 6⟩, none⟩,
    ⟨.plain .identifier "b", ⟨21, 2, 7⟩, none⟩]

theorem expressionLaw_of_tokenize_parenthesised :
    parenthesised.utf8ByteSize < 2 ^ 31 ∧ tokenize parenthesised = .ok parenthesisedTokens ∧
      ExpressionLaw parenthesised parenthesisedTokens := by
  have hsize : parenthesised.utf8ByteSize < 2 ^ 31 := by decide
  have h : tokenize parenthesised = .ok parenthesisedTokens := by decide +kernel
  exact ⟨hsize, h, expressionLaw_of_tokenize hsize h⟩

end ResourceLang.Proofs.ExpressionNesting
