import ResourceLang.Proofs.ReaderRuns
import ResourceLang.Proofs.SourceCover

/-!
Where a reader says that a token is missing. It counts the bytes of the last token's text from the
position of that token, which is the end of the token as long as its text is all of its spelling. A
token that is written with marks around its text ends as many bytes further on, so the position that
is reported lies inside of it.
-/

set_option autoImplicit false
set_option relaxedAutoImplicit false

namespace ResourceLang.Proofs.TokenEnds

open Text Token LexemeGrammar Utf8Reading PlaceShift ScannerRun SourceCover ReaderRuns

/-- The kinds that are written with marks around their text. -/
def surrounded : List Kind := [.directive, .variableName, .resourceId, .percentage, .string]

/-- The bytes of the marks of a kind: two quotes around a string, and one sign in front of a text or
behind it. -/
def markSize (kind : Kind) : Nat := if kind = .string then 2 else if kind ∈ surrounded then 1 else 0

/-- The bytes up to `stop` spell the token, and no other token follows. -/
structure LastSpan (bytes : List UInt8) (token : Token) (stop : Nat) : Prop where
  span : Span bytes token stop
  stop_le : stop ≤ bytes.length
  gap : GapBytes (bytes.drop stop) []

/-- The error of a call that there was no token for. -/
def lexicalError? : Answer → Option LexError
  | .refused (.lexical error) => some error
  | _ => none

/-- Wherever a reader of the tokens stands, the calls that go past the end fail, and they report a
position as the end of the text. -/
def EndsAt (tokens : List Token) (position : Nat) : Prop :=
  ∀ reader : TokenReader, reader.tokens = tokens → ∀ call error,
    lexicalError? (perform reader call).2 = some error ↔
      PastEnd reader call ∧ error = .unexpectedEnd position

variable {tokens : List Token} {last : Token} {bytes : List UInt8}

/-! ### Readers -/

section Calls

variable {reader after : TokenReader} {call : Call} {answer : Answer}

/-- A call that looks no further than the next token is not past the end where there is one. -/
theorem not_pastEnd_of_next {token : Token}
    (hnext : reader.tokens[reader.position]? = some token) (hcall : ∀ count, call ≠ .ahead count) :
    ¬ PastEnd reader call := by
  have hlt : reader.position < reader.tokens.length := (List.getElem?_eq_some_iff.mp hnext).choose
  cases call with
  | ahead count => exact absurd rfl (hcall count)
  | next | require | requireAny => exact Nat.not_le.mpr hlt
  | nextIs | skip | nextIf => exact id

/-- A call that fails for the end of the tokens goes past it, and reports where the last text
ends. -/
theorem lexicalError?_of_step (h : Step reader call after answer) (error : LexError) :
    lexicalError? answer = some error ↔
      PastEnd reader call ∧ error = .unexpectedEnd reader.textEnd := by
  cases h with
  | ends hpast => rw [lexicalError?, Option.some_inj, eq_comm, and_iff_right hpast]
  | takes hnext hwants _ _ =>
    refine iff_of_false nofun fun herror ↦ not_pastEnd_of_next hnext ?_ herror.1
    rintro count rfl
    exact hwants
  | sees hahead =>
    have hlt := (List.getElem?_eq_some_iff.mp hahead).choose
    exact iff_of_false nofun fun herror ↦ Nat.not_lt.mpr herror.1 hlt
  | refuses hkinds hnext hkind =>
    refine iff_of_false nofun fun herror ↦ not_pastEnd_of_next hnext ?_ herror.1
    rintro count rfl
    cases hkinds
  | tells | leaves | skips => exact iff_of_false nofun And.left

end Calls

/-- All readers of some tokens report the end of the last token's text. -/
theorem endsAt_textEnd (tokens : List Token) :
    EndsAt tokens (TokenReader.ofList tokens).textEnd := by
  rintro reader rfl call error
  exact lexicalError?_of_step (step_perform reader call) error

/-- There is only one position that all calls report. -/
theorem EndsAt.unique {position other : Nat} (h : EndsAt tokens position)
    (hother : EndsAt tokens other) :
    position = other := by
  have hpast : PastEnd (.ofList tokens) (.ahead tokens.length) := Nat.le_add_left _ _
  have herror := (h (.ofList tokens) rfl (.ahead tokens.length) _).mpr ⟨hpast, rfl⟩
  exact LexError.unexpectedEnd.inj ((hother _ rfl _ _).mp herror).2

/-! ### Spellings -/

theorem length_marked (kind : Kind) (cs : List Char) :
    (Utf8.encode (marked kind cs)).length = (Utf8.encode cs).length + markSize kind := by
  cases kind
  case string =>
    rw [marked, Utf8.encode_append, encode_cons, List.length_append, List.length_append]
    exact congrArg (· + 1) (Nat.add_comm 1 _)
  case percentage =>
    rw [marked, Utf8.encode_append, List.length_append]
    rfl
  case directive | variableName | resourceId =>
    rw [marked, encode_cons, List.length_append]
    exact Nat.add_comm 1 _
  -- The other kinds have no marks.
  all_goals rfl

/-- A lexeme is spelled by the bytes of its text and of its marks. -/
theorem length_of_spells {lexeme : Lexeme} {taken : List Char} (h : Spells lexeme taken) :
    (Utf8.encode taken).length = lexeme.text.utf8ByteSize + markSize lexeme.kind := by
  rw [utf8ByteSize_eq_length_encode]
  rcases h with rfl | ⟨digits, -, rfl, rfl⟩
  · exact length_marked _ _
  · show _ = (Utf8.encode (String.ofList ('0' :: 'x' :: digits)).toList).length + 0
    rw [String.toList_ofList, encode_cons, encode_cons, encode_cons, encode_cons]
    rfl

/-- Where a token ends is told by its text and its kind. -/
theorem stop_of_span {token : Token} {stop : Nat} (h : Span bytes token stop)
    (hstop : stop ≤ bytes.length) :
    stop = token.place.position + token.text.utf8ByteSize + markSize token.kind := by
  obtain ⟨taken, hspells, hbytes⟩ := h.spelled
  have hlength : (bytes.extract token.place.position stop).length =
      stop - token.place.position := by
    rw [List.extract_eq_take_drop, List.length_take, List.length_drop]
    omega
  have hspelled : stop - token.place.position = token.text.utf8ByteSize + markSize token.kind := by
    rw [← hlength, hbytes]
    exact length_of_spells hspells
  have hnonempty := h.nonempty
  omega

theorem lastSpan_of_cover {start : Nat} {ends : List Nat} (h : Cover bytes start tokens ends)
    (hlast : tokens.getLast? = some last) : ∃ stop, LastSpan bytes last stop := by
  induction tokens generalizing start ends with
  | nil => cases hlast
  | cons token tokens ih =>
    obtain ⟨stop, ends, rfl⟩ := List.exists_cons_of_length_eq_add_one h.length_eq
    obtain ⟨hspan, hspans⟩ := List.forall_mem_cons.mp h.spans
    obtain ⟨-, hgaps⟩ := List.forall_mem_cons.mp h.gaps
    cases tokens with
    | nil =>
      obtain rfl := Option.some.inj hlast
      obtain rfl := List.eq_nil_of_length_eq_zero (Nat.succ.inj h.length_eq)
      obtain ⟨hstop, hgap⟩ := hgaps (stop, bytes.length) List.mem_cons_self
      rw [List.extract_eq_take_drop, List.take_of_length_le (by simp), List.drop_length] at hgap
      exact ⟨stop, hspan, hstop, hgap⟩
    | cons next tokens =>
      rw [List.getLast?_cons_cons] at hlast
      exact ih ⟨Nat.succ.inj h.length_eq, hspans, hgaps⟩ hlast

theorem markSize_eq_zero_iff (kind : Kind) : markSize kind = 0 ↔ kind ∉ surrounded := by
  cases kind <;> decide

/-! ### Readers of a text -/

/-- The last token of a text ends where a gap begins that reaches up to the end of the text. A
reader of the tokens reports as many bytes in front of that as there are marks around the text of
the token. So what it reports is where the token ends exactly if tokens of the kind have no marks,
and lies in the token otherwise. -/
theorem endsAt_stop_iff {text : String} (h : tokenize text = .ok tokens)
    (hlast : tokens.getLast? = some last) :
    ∃ stop, LastSpan (Utf8.bytes text) last stop ∧ last.place.position + markSize last.kind ≤ stop ∧
      EndsAt tokens (stop - markSize last.kind) ∧
        (EndsAt tokens stop ↔ last.kind ∉ surrounded) := by
  rw [tokenize_eq] at h
  obtain ⟨later, ends, hlater, hcover⟩ := cover_of_run [] (Prod.ext h rfl) rfl
  obtain rfl : tokens = later := hlater
  obtain ⟨stop, hspan⟩ := lastSpan_of_cover hcover hlast
  have hstop := stop_of_span hspan.span hspan.stop_le
  have htextEnd : (TokenReader.ofList tokens).textEnd = stop - markSize last.kind := by
    have hend : (TokenReader.ofList tokens).textEnd = last.place.position +
        last.text.utf8ByteSize := by
      simp only [TokenReader.textEnd, TokenReader.ofList, hlast]
    omega
  have hends := htextEnd ▸ endsAt_textEnd tokens
  refine ⟨stop, hspan, by omega, hends, ?_⟩
  rw [← markSize_eq_zero_iff]
  constructor
  · intro hsame
    have hsize := hends.unique hsame
    have hnonempty := hspan.span.nonempty
    omega
  · intro hnone
    rwa [hnone] at hends

/-- A text that ends in a comment behind a directive. -/
def directed : String := "\"é\" @ok\x60 end"

def directedTokens : List Token :=
  [⟨.plain .string "é", .start, none⟩, ⟨.plain .directive "ok", ⟨5, 1, 5⟩, none⟩]

theorem endsAt_stop_iff_directed :
    tokenize directed = .ok directedTokens ∧
      directedTokens.getLast? = some ⟨.plain .directive "ok", ⟨5, 1, 5⟩, none⟩ ∧
        LastSpan (Utf8.bytes directed) ⟨.plain .directive "ok", ⟨5, 1, 5⟩, none⟩ 8 ∧
          EndsAt directedTokens 7 ∧
          ¬ EndsAt directedTokens 8 := by
  have h : tokenize directed = .ok directedTokens := by decide +kernel
  obtain ⟨stop, hspan, -, hends, hiff⟩ := endsAt_stop_iff h rfl
  have hstop : stop = 8 := stop_of_span hspan.span hspan.stop_le
  subst hstop
  exact ⟨h, rfl, hspan, hends, fun hsame ↦ hiff.mp hsame (by decide)⟩

/-- Behind a string of three letters the token that is missing is reported at the last of them. -/
theorem not_endsAt_quoted :
    tokenize "\"abc\"" = .ok [⟨.plain .string "abc", .start, none⟩] ∧
      Span (Utf8.bytes "\"abc\"") ⟨.plain .string "abc", .start, none⟩ 5 ∧
        (TokenReader.ofList [⟨.plain .string "abc", .start, none⟩]).ahead 1 =
          .error (.unexpectedEnd 3) ∧
          ¬ EndsAt [⟨.plain .string "abc", .start, none⟩] 5 := by
  refine ⟨by decide +kernel,
    ⟨by decide, @Lexical.string "abc".toList (by decide), _, .inl rfl, rfl⟩, rfl, fun hends ↦ ?_⟩
  cases hends.unique (endsAt_textEnd _)

end ResourceLang.Proofs.TokenEnds
