import ResourceLang.Token.Lexer

/-!
A scanner that works on the bytes of a text. It has no characters in front of it but an index into
the bytes, and it takes parts of them out as texts. An index may lie beyond the end, and a part may
begin or end within a character: each operation looks whether it does, and the scanner breaks down
at the first one that goes astray. It is written as if none ever did, and goes by the same rules as
the scanner of characters.
-/

set_option autoImplicit false
set_option relaxedAutoImplicit false

namespace ResourceLang.Proofs.ByteScanner

open Text Token Token.Scan

/-- Where a scanner of bytes has come to. It keeps the index at which its line began. -/
structure Cursor where
  position : Nat
  line : Nat
  lineStart : Nat
  mode : Mode

namespace Cursor

def start : Cursor := ⟨0, 1, 0, .outside⟩

def place (cursor : Cursor) : Place :=
  ⟨cursor.position, cursor.line, cursor.position - cursor.lineStart⟩

/-- There is a line feed at `index`. -/
def newlineAt (cursor : Cursor) (index : Nat) : Cursor :=
  ⟨cursor.position, cursor.line + 1, index + 1, cursor.mode⟩

/-- The line feeds among the bytes that begin at `index`. -/
def newlinesIn (cursor : Cursor) (index : Nat) : List UInt8 → Cursor
  | [] => cursor
  | b :: bs => (if b = 0x0A then cursor.newlineAt index else cursor).newlinesIn (index + 1) bs

end Cursor

/-- Why a scanner breaks down. -/
inductive Fault
  /-- There is no byte at an index. -/
  | index (position : Nat)
  /-- No part of the bytes, or none of whole characters, lies between two indices. -/
  | slice (first stop : Nat)
  /-- The cursor is set beyond the end or within a character. -/
  | cursor (position : Nat)
  /-- The cursor stays where it was, so the scanner would never end. -/
  | stuck (position : Nat)

/-- What an operation gives, and where the cursor is after it. -/
structure Passed (α : Type) where
  value : α
  after : Cursor

/-- A byte as the character that has it for a code. -/
def asChar (b : UInt8) : Char := Char.ofNat b.toNat

section Operations

variable (bytes : List UInt8)

/-- Whether no character reaches over an index: there is none before it or behind it, or one begins
there. -/
def isBoundary (index : Nat) : Bool :=
  index = 0 || index = bytes.length || bytes[index]?.any (!Utf8.isContinuation ·)

def sliceBytes (first stop : Nat) : Except Fault (List UInt8) :=
  if first ≤ stop ∧ stop ≤ bytes.length then .ok (bytes.extract first stop)
    else .error (.slice first stop)

/-- The text between two indices. -/
def slice (first stop : Nat) : Except Fault String :=
  if isBoundary bytes first ∧ isBoundary bytes stop
    then (sliceBytes bytes first stop).map Utf8.lossy
  else .error (.slice first stop)

theorem slice_eq_ok_iff {first stop : Nat} {text : String} :
    slice bytes first stop = .ok text ↔ (isBoundary bytes first ∧ isBoundary bytes stop) ∧
      (first ≤ stop ∧ stop ≤ bytes.length) ∧ Utf8.lossy (bytes.extract first stop) = text := by
  unfold slice sliceBytes
  by_cases hwhole : isBoundary bytes first ∧ isBoundary bytes stop
  · by_cases hwithin : first ≤ stop ∧ stop ≤ bytes.length
    · rw [if_pos hwhole, if_pos hwithin]
      exact ⟨fun h ↦ ⟨hwhole, hwithin, Except.ok.inj h⟩, fun h ↦ congrArg Except.ok h.2.2⟩
    · rw [if_pos hwhole, if_neg hwithin]
      exact ⟨nofun, fun h ↦ absurd h.2.1 hwithin⟩
  · rw [if_neg hwhole]
    exact ⟨nofun, fun h ↦ absurd h.1 hwhole⟩

/-- The byte at an index, if there is one. -/
def byte? (index : Nat) : Option Char := bytes[index]?.map asChar

def byte (index : Nat) : Except Fault Char :=
  match byte? bytes index with
  | some c => .ok c
  | none => .error (.index index)

def byteIs (index : Nat) (p : Char → Bool) : Bool := (byte? bytes index).any p

/-- The end of the run of bytes of a class that begins at an index. -/
def runEnd (first : Nat) (p : Char → Bool) : Nat :=
  first + ((bytes.drop first).takeWhile fun b ↦ p (asChar b)).length

/-- How many bytes stand before a character in a text, if it is there. -/
def offsetOf? (c : Char) (text : String) : Option Nat :=
  if c ∈ text.toList then some (Utf8.size (text.toList.takeWhile (· ≠ c))) else none

/-- Sets the cursor, which must be within the bytes and at a boundary. -/
def moveTo (cursor : Cursor) (position : Nat) : Except Fault Cursor :=
  if position ≤ bytes.length ∧ isBoundary bytes position then
    .ok ⟨position, cursor.line, cursor.lineStart, cursor.mode⟩
  else .error (.cursor position)

/-- Moves over a run of bytes of a class. Some of them may be within a character, but the cursor is
set at the end only, and no text begins or ends in between. -/
def consumeWhile (p : Char → Bool) (cursor : Cursor) : Except Fault (Passed String) := do
  let after ← moveTo bytes cursor (runEnd bytes cursor.position p)
  let text ← slice bytes cursor.position after.position
  return ⟨text, after⟩

/-! ### Tokens -/

def unrecognised (cursor : Cursor) : Except Fault (Passed (Except LexError Lexeme)) := do
  let ahead ← slice bytes cursor.position bytes.length
  return ⟨.error (.unrecognisedCharacter (ahead.toList.headD '\x00') cursor.place), cursor⟩

/-- A mark of one byte and the name behind it. -/
def scanName (kind : Kind) (cursor : Cursor) : Except Fault (Passed (Except LexError Lexeme)) := do
  let start ← moveTo bytes cursor (cursor.position + 1)
  let name ← consumeWhile bytes isWord start
  return ⟨.ok (.plain kind name.value), name.after⟩

def scanIdentifier (cursor : Cursor) : Except Fault (Passed (Except LexError Lexeme)) := do
  let name ← consumeWhile bytes isWord cursor
  return ⟨.ok (.plain .identifier name.value), name.after⟩

def scanString (cursor : Cursor) : Except Fault (Passed (Except LexError Lexeme)) := do
  let first := cursor.position + 1
  let ahead ← slice bytes first bytes.length
  match offsetOf? '"' ahead with
  | none => return ⟨.error (.unterminatedString cursor.place), cursor⟩
  | some length =>
    let body ← sliceBytes bytes first (first + length)
    let after ← moveTo bytes (cursor.newlinesIn first body) (first + length + 1)
    let text ← slice bytes first (first + length)
    return ⟨.ok (.plain .string text), after⟩

/-- At most `count` names that each end in a dot. -/
def scanNames : (count : Nat) → Cursor → Except Fault (Passed (List String))
  | 0, cursor => return ⟨[], cursor⟩
  | count + 1, cursor => do
    let stop := runEnd bytes cursor.position isWord
    if stop = cursor.position ∨ byte? bytes stop ≠ some '.' then return ⟨[], cursor⟩
    else
      let name ← slice bytes cursor.position stop
      let next ← moveTo bytes cursor (stop + 1)
      let names ← scanNames count next
      return ⟨name :: names.value, names.after⟩

/-- Moves over a minus sign, if there is one. -/
def scanSign (cursor : Cursor) : Except Fault Cursor :=
  if byteIs bytes cursor.position (· = '-') then moveTo bytes cursor (cursor.position + 1)
    else .ok cursor

def scanResourceId (cursor : Cursor) : Except Fault (Passed (Except LexError Lexeme)) :=
  if byte? bytes (cursor.position + 1) = none then
    .ok ⟨.error (.unexpectedEnd (cursor.position + 1)), cursor⟩
  else do
    let start ← moveTo bytes cursor (cursor.position + 1)
    let names ← scanNames bytes 2 start
    let unsigned ← scanSign bytes names.after
    let digits ← consumeWhile bytes Char.isDigit unsigned
    if digits.value = "" then return ⟨.error (.malformedResourceId cursor.place), digits.after⟩
    else
      let number ← slice bytes names.after.position digits.after.position
      return ⟨.ok (.dotted .resourceId (names.value ++ [number])), digits.after⟩

/-- A resource id that is spelled out, or one like any other. -/
def scanHash (cursor : Cursor) : Except Fault (Passed (Except LexError Lexeme)) := do
  let ahead ← slice bytes cursor.position bytes.length
  if ['#', 'a', 'u', 't', 'o'].isPrefixOf ahead.toList then
    let text ← slice bytes (cursor.position + 1) (cursor.position + 5)
    let after ← moveTo bytes cursor (cursor.position + 5)
    return ⟨.ok (.plain .resourceId text), after⟩
  else scanResourceId bytes cursor

def scanDollar (cursor : Cursor) : Except Fault (Passed (Except LexError Lexeme)) :=
  match byte? bytes (cursor.position + 1) with
  | none => .ok ⟨.error (.unexpectedEnd (cursor.position + 1)), cursor⟩
  | some next =>
    if next = '(' then do
      let after ← moveTo bytes cursor (cursor.position + 2)
      return ⟨.ok (.plain .expressionOpen "$("),
        ⟨after.position, after.line, after.lineStart, .inside 0⟩⟩
    else if isWord next then scanName bytes .variableName cursor
    else unrecognised bytes cursor

def scanHex (cursor : Cursor) : Except Fault (Passed (Except LexError Lexeme)) := do
  let start ← moveTo bytes cursor (cursor.position + 2)
  let digits ← consumeWhile bytes isHexDigit start
  return ⟨.ok (.plain .integer ("0x" ++ digits.value)), digits.after⟩

def scanNumber (cursor : Cursor) : Except Fault (Passed (Except LexError Lexeme)) := do
  let unsigned ← scanSign bytes cursor
  let digits ← consumeWhile bytes Char.isDigit unsigned
  let text ← slice bytes cursor.position digits.after.position
  if byteIs bytes digits.after.position (· = '%') then
    let after ← moveTo bytes digits.after (digits.after.position + 1)
    return ⟨.ok (.plain .percentage text), after⟩
  else return ⟨.ok (.plain .integer text), digits.after⟩

/-- The kind of a symbol of one byte, and the mode after it. -/
def symbol? (mode : Mode) (c : Char) : Option (Kind × Mode) :=
  if c = '(' then some (.leftParen, mode.afterOpen)
  else if c = ')' then some mode.afterClose
  else (symbolKind? c).map (·, mode)

def scanSymbol (cursor : Cursor) : Except Fault (Passed (Except LexError Lexeme)) := do
  let c ← byte bytes cursor.position
  if (c = '<' ∨ c = '>') ∧ byteIs bytes (cursor.position + 1) (· = c) then
    let after ← moveTo bytes cursor (cursor.position + 2)
    let text ← slice bytes cursor.position after.position
    return ⟨.ok (.plain (if c = '<' then .leftShift else .rightShift) text), after⟩
  else
    match symbol? cursor.mode c with
    | none => unrecognised bytes cursor
    | some (kind, mode) =>
      let after ← moveTo bytes cursor (cursor.position + 1)
      let text ← slice bytes cursor.position after.position
      return ⟨.ok (.plain kind text), ⟨after.position, after.line, after.lineStart, mode⟩⟩

/-- The token that begins with the byte `c`, or why there is none. -/
def scanToken (cursor : Cursor) (c : Char) : Except Fault (Passed (Except LexError Lexeme)) :=
  if c = '@' then scanName bytes .directive cursor
  else if c = '"' then scanString bytes cursor
  else if c = '#' then scanHash bytes cursor
  else if c = '$' ∧ cursor.mode = .outside then scanDollar bytes cursor
  else if c = '0' ∧ byteIs bytes (cursor.position + 1) (fun x ↦ x = 'x' || x = 'X') ∧
      byteIs bytes (cursor.position + 2) isHexDigit then scanHex bytes cursor
  else if c = '-' ∧ byteIs bytes (cursor.position + 1) Char.isDigit then scanNumber bytes cursor
  else if c.isDigit then scanNumber bytes cursor
  else if isWordStart c then scanIdentifier bytes cursor
  else scanSymbol bytes cursor

/-! ### Steps, runs and calls -/

/-- What one step comes to: the end of the bytes, an error, or a cursor further on, with a token or
without one. -/
inductive Step
  | finished
  | onward (token : Option Token) (after : Cursor)
  | failed (error : LexError) (after : Cursor)

/-- The step that a rule comes to at a place. -/
def stepOf (place : Place) (source : Option SourceId) (scanned : Passed (Except LexError Lexeme)) :
    Step :=
  match scanned.value with
  | .ok lexeme => .onward (some ⟨lexeme, place, source⟩) scanned.after
  | .error error => .failed error scanned.after

def step (source : Option SourceId) (cursor : Cursor) : Except Fault Step :=
  match byte? bytes cursor.position with
  | none => .ok .finished
  | some c =>
    if c = ' ' ∨ c = '\t' ∨ c = '\r' then
      (moveTo bytes cursor (cursor.position + 1)).map (.onward none)
    else if c = '\n' then
      (moveTo bytes (cursor.newlineAt cursor.position) (cursor.position + 1)).map (.onward none)
    else if c = '\x60' then (consumeWhile bytes (· ≠ '\n') cursor).map (.onward none ·.after)
    else
      (scanToken bytes cursor c).map (stepOf cursor.place source)

/-- Runs to the end of the bytes or to the first error; `done` holds the tokens so far in
reverse. -/
def run (source : Option SourceId) (done : List Token) (cursor : Cursor) :
    Except Fault (Passed (Except LexError (List Token))) :=
  match step bytes source cursor with
  | .error fault => .error fault
  | .ok .finished => .ok ⟨.ok done.reverse, cursor⟩
  | .ok (.failed error after) => .ok ⟨.error error, after⟩
  | .ok (.onward token after) =>
    if cursor.position < after.position ∧ after.position ≤ bytes.length then
      run source (token.toList ++ done) after
    else .error (.stuck after.position)
termination_by bytes.length - cursor.position
decreasing_by omega

end Operations

/-- A lexer of bytes. It keeps its cursor between calls, and the tokens once it has them. -/
structure ByteLexer where
  bytes : List UInt8
  source : Option SourceId
  cursor : Cursor
  tokens : Option (List Token)

namespace ByteLexer

def opened (source : Option SourceId) (text : String) : ByteLexer :=
  ⟨Utf8.bytes text, source, .start, none⟩

/-- The tokens from where the cursor is, and the lexer after the call. -/
def resume (lexer : ByteLexer) : Except Fault (Except LexError (List Token) × ByteLexer) :=
  match lexer.tokens with
  | some tokens => .ok (.ok tokens, lexer)
  | none =>
    (run lexer.bytes lexer.source [] lexer.cursor).map fun scanned ↦
      (scanned.value, ⟨lexer.bytes, lexer.source, scanned.after, scanned.value.toOption⟩)

/-- The lexer after so many calls, unless one of them breaks down. -/
def afterCalls (lexer : ByteLexer) : Nat → Except Fault ByteLexer
  | 0 => .ok lexer
  | count + 1 => do
    let last ← lexer.afterCalls count
    let (_, next) ← last.resume
    return next

end ByteLexer

end ResourceLang.Proofs.ByteScanner
