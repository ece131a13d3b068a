import ResourceLang.Token.Basic
import ResourceLang.Token.LexError

/-!
Tokens read one by one. A reader knows how many of its tokens have been read, and an operation that
reads gives the reader after it beside what it comes to. Looking ahead reads none.
-/

set_option autoImplicit false
set_option relaxedAutoImplicit false

namespace ResourceLang

open Token

structure TokenReader where
  tokens : List Token
  position : Nat
  position_le : position ≤ tokens.length
  deriving DecidableEq, Repr

inductive ReaderError
  | lexical (error : LexError)
  | unexpected (expected : List Kind) (found : Token)
  deriving DecidableEq, Repr

def ReaderError.message : ReaderError → String
  | lexical error => error.message
  | unexpected expected found =>
    "expected [" ++ ", ".intercalate (expected.map Kind.name) ++ "], found " ++ found.display

namespace TokenReader

def ofList (tokens : List Token) : TokenReader := ⟨tokens, 0, Nat.zero_le _⟩

def isDone (reader : TokenReader) : Bool := reader.tokens.length ≤ reader.position

/-- Where the text of the last token ends, which is where a token is missing after it. -/
def textEnd (reader : TokenReader) : Nat :=
  match reader.tokens.getLast? with
  | some token => token.place.position + token.text.utf8ByteSize
  | none => 0

/-- The token `count` places after the next one. -/
def ahead (reader : TokenReader) (count : Nat) : Except LexError Token :=
  match reader.tokens[reader.position + count]? with
  | some token => .ok token
  | none => .error (.unexpectedEnd reader.textEnd)

/-- Whether there is a next token and it is of `kind`. -/
def nextIs (reader : TokenReader) (kind : Kind) : Bool :=
  reader.tokens[reader.position]?.any fun token ↦ token.kind = kind

theorem ahead_of_some {reader : TokenReader} {count : Nat} {token : Token}
    (h : reader.tokens[reader.position + count]? = some token) :
    reader.ahead count = .ok token := by
  rw [ahead, h]

theorem ahead_of_none {reader : TokenReader} {count : Nat}
    (h : reader.tokens[reader.position + count]? = none) :
    reader.ahead count = .error (.unexpectedEnd reader.textEnd) := by
  rw [ahead, h]

theorem getElem?_of_ahead {reader : TokenReader} {count : Nat} {token : Token}
    (h : reader.ahead count = .ok token) :
    reader.tokens[reader.position + count]? = some token := by
  unfold ahead at h
  split at h
  · rename_i found
    rw [found, Except.ok.inj h]
  · cases h

theorem position_lt_of_ahead {reader : TokenReader} {token : Token}
    (h : reader.ahead 0 = .ok token) :
    reader.position < reader.tokens.length :=
  (List.getElem?_eq_some_iff.mp (getElem?_of_ahead h)).choose

/-- Reads the next token. At the end there is none to read, and the reader stays there. -/
def next (reader : TokenReader) : TokenReader × Except LexError Token :=
  match h : reader.ahead 0 with
  | .ok token => (⟨reader.tokens, reader.position + 1, position_lt_of_ahead h⟩, .ok token)
  | .error error => (reader, .error error)

/-- Passes over `count` tokens, or over all that are left. -/
def skip (reader : TokenReader) (count : Nat) : TokenReader :=
  ⟨reader.tokens, min (reader.position + count) reader.tokens.length, Nat.min_le_right _ _⟩

/-- Reads the next token, which must be of one of `kinds`. It is looked at before it is read. -/
def requireAny (reader : TokenReader) (kinds : List Kind) :
    TokenReader × Except ReaderError Token :=
  match reader.ahead 0 with
  | .error error => (reader, .error (.lexical error))
  | .ok token =>
    if token.kind ∈ kinds then reader.next.map id (Except.mapError .lexical)
    else (reader, .error (.unexpected kinds token))

def require (reader : TokenReader) (kind : Kind) : TokenReader × Except ReaderError Token :=
  reader.requireAny [kind]

/-- Reads the next token if it is of `kind`. -/
def nextIf? (reader : TokenReader) (kind : Kind) : TokenReader × Option Token :=
  if reader.nextIs kind then reader.next.map id Except.toOption else (reader, none)

theorem next_of_some {reader : TokenReader} {token : Token}
    (h : reader.tokens[reader.position]? = some token) :
    ∃ after, reader.next = (after, .ok token) ∧ after.tokens = reader.tokens ∧
      after.position = reader.position + 1 := by
  have hahead : reader.ahead 0 = .ok token := ahead_of_some h
  unfold next
  split
  · rename_i found hfound
    obtain rfl := Except.ok.inj (hfound.symm.trans hahead)
    exact ⟨_, rfl, rfl, rfl⟩
  · rename_i hfound
    cases hfound.symm.trans hahead

theorem next_of_none {reader : TokenReader} (h : reader.tokens[reader.position]? = none) :
    reader.next = (reader, .error (.unexpectedEnd reader.textEnd)) := by
  have hahead : reader.ahead 0 = .error (.unexpectedEnd reader.textEnd) := ahead_of_none h
  unfold next
  split
  · rename_i hfound
    cases hfound.symm.trans hahead
  · rename_i hfound
    rw [Except.error.inj (hfound.symm.trans hahead)]

end TokenReader

end ResourceLang
