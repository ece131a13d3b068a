import ResourceLang.Log
import ResourceLang.Text.Utf8
import ResourceLang.Token.LexError
import ResourceLang.Token.Scan

/-!
A whole text cut into tokens. A scanner stands at a place in a text; each step passes over a gap and
cuts one token, and the rest is shorter after it. A lexer keeps its scanner between calls: once the
text is cut it keeps the tokens, and after an error the next call goes on from where the scanner
stopped.
-/

set_option autoImplicit false
set_option relaxedAutoImplicit false

namespace ResourceLang

open Token

structure Scanner where
  place : Place
  mode : Scan.Mode
  rest : List Char
  deriving DecidableEq, Repr

namespace Scanner

def ofText (text : String) : Scanner := ⟨.start, .outside, text.toList⟩

/-- What one step of a scanner comes to, and the scanner after it. -/
inductive Step
  | finished (after : Scanner)
  | failed (error : LexError) (after : Scanner)
  | token (token : Token) (after : Scanner)

/-- The error at `place`. The end of a text is met one byte after the character that wants more. -/
def errorAt (place : Place) : Scan.Cause → LexError
  | .unrecognised found => .unrecognisedCharacter found place
  | .endOfText => .unexpectedEnd (place.position + 1)
  | .malformedResourceId => .malformedResourceId place
  | .unterminatedString => .unterminatedString place

/-- The token of `source` that stands first after the gap at the scanner. -/
def step (source : Option SourceId) (scanner : Scanner) : Step :=
  let gap := Scan.skipGap false scanner.place scanner.rest
  match gap.2 with
  | [] => .finished ⟨gap.1, scanner.mode, []⟩
  | c :: cs =>
    match Scan.cut scanner.mode c cs with
    | .ok cut => .token ⟨cut.lexeme, gap.1, source⟩ ⟨gap.1.after cut.taken, cut.mode, cut.rest⟩
    | .error halt =>
      .failed (errorAt gap.1 halt.cause) ⟨gap.1.after halt.taken, scanner.mode, halt.rest⟩

theorem length_rest_lt_of_step {source : Option SourceId} {scanner after : Scanner} {token : Token}
    (h : scanner.step source = .token token after) : after.rest.length < scanner.rest.length := by
  have hgap := Scan.length_skipGap_le false scanner.place scanner.rest
  unfold step at h
  simp only [] at h
  split at h
  · simp at h
  · rename_i c cs hrest
    split at h
    · rename_i cut hcut
      have hlt := Scan.length_rest_lt_of_cut hcut
      rw [hrest] at hgap
      injection h with _ hafter
      subst hafter
      exact Nat.lt_of_lt_of_le hlt hgap
    · simp at h

/-- Runs to the end of the text or to the first error; `done` holds the tokens so far in reverse. -/
def run (source : Option SourceId) (done : List Token) (scanner : Scanner) :
    Except LexError (List Token) × Scanner :=
  match _h : scanner.step source with
  | .finished after => (.ok done.reverse, after)
  | .failed error after => (.error error, after)
  | .token token after => run source (token :: done) after
termination_by scanner.rest.length
decreasing_by exact length_rest_lt_of_step ‹_›

end Scanner

structure Lexer where
  text : String
  source : Option SourceId
  scanner : Scanner
  tokens : Option (List Token)

namespace Lexer

def ofText (text : String) : Lexer := ⟨text, none, .ofText text, none⟩

/-- A lexer over a file of the map, as long as the map holds it. -/
def ofFile? (map : Sources) (id : SourceId) : Option Lexer :=
  (map.get? id).map fun file ↦ ⟨file.text, some id, .ofText file.text, none⟩

/-- The tokens from where the scanner stands, which is the start of the text in a first call. -/
def resume (lexer : Lexer) : Except LexError (List Token) × Lexer :=
  match lexer.tokens with
  | some tokens => (.ok tokens, lexer)
  | none =>
    match lexer.scanner.run lexer.source [] with
    | (.ok tokens, scanner) => (.ok tokens, ⟨lexer.text, lexer.source, scanner, some tokens⟩)
    | (.error error, scanner) => (.error error, ⟨lexer.text, lexer.source, scanner, none⟩)

/-- The log lines of `resume`. -/
def resumeLog (lexer : Lexer) : List Log.Entry :=
  match lexer.tokens with
  | some _ => []
  | none =>
    let start := Log.detail s!"lexing {lexer.text.utf8ByteSize} bytes"
    match lexer.resume with
    | (.error _, _) => [start]
    | (.ok tokens, after) =>
      let unclosed := match after.scanner.mode with
        | .outside => []
        | .inside depth => [Log.detail s!"input ended inside an expression (balance {depth})"]
      start :: unclosed ++ [Log.detail s!"lexed {tokens.length} tokens"]

end Lexer

/-- The tokens of a text that belongs to no file. -/
def tokenize (text : String) : Except LexError (List Token) := (Lexer.ofText text).resume.1

end ResourceLang
