import ResourceLang.Source
import ResourceLang.Text.Numeral
import ResourceLang.Text.Quoted
import ResourceLang.Token.Kind

/-!
Tokens. A lexeme is what a token says, and a token is a lexeme at its place in a source. A lexeme
may have components, as a resource id has, and then its text is the components joined by dots.
-/

set_option autoImplicit false
set_option relaxedAutoImplicit false

namespace ResourceLang

open Text

structure Lexeme where
  kind : Token.Kind
  text : String
  components : List String
  text_eq : components ≠ [] → text = ".".intercalate components
  deriving DecidableEq, Repr

namespace Lexeme

def plain (kind : Token.Kind) (text : String) : Lexeme := ⟨kind, text, [], fun h ↦ absurd rfl h⟩

def dotted (kind : Token.Kind) (components : List String) : Lexeme :=
  ⟨kind, ".".intercalate components, components, fun _ ↦ rfl⟩

/-- The part that carries the number: of a resource id the last component, else all of the text. -/
def numericText (lexeme : Lexeme) : String :=
  match lexeme.kind with
  | .resourceId => lexeme.components.getLast?.getD lexeme.text
  | _ => lexeme.text

end Lexeme

structure Token where
  lexeme : Lexeme
  place : Place
  source : Option SourceId
  deriving DecidableEq, Repr

namespace Token

inductive NumberError
  | noNumber (kind : Kind)
  | malformed (text : String)
  deriving DecidableEq, Repr

def NumberError.message : NumberError → String
  | noNumber kind => s!"token of kind {kind.name} has no numeric value"
  | malformed text => s!"invalid numeric literal: {Quoted.string text}"

end Token

namespace Lexeme

/-- The digits after a hexadecimal prefix. -/
def hexDigits? : List Char → Option (List Char)
  | '0' :: 'x' :: digits => some digits
  | '0' :: 'X' :: digits => some digits
  | _ => none

/-- A numeral of at most 64 bits. -/
def readUnsigned? (text : String) : Option Nat :=
  let number :=
    match hexDigits? text.toList with
    | some digits => Numeral.readNat 16 digits
    | none => Numeral.readNat 10 text.toList
  number.filter (· < UInt64.size)

/-- A numeral of 64 bits with a sign. A hexadecimal one is a bit pattern, so sixteen digits `F` are
minus one. -/
def readSigned? (text : String) : Option Int :=
  match hexDigits? text.toList with
  | some digits =>
    ((Numeral.readNat 16 digits).filter (· < UInt64.size)).map fun n ↦ (BitVec.ofNat 64 n).toInt
  | none =>
    (Numeral.readInt 10 text.toList).filter fun n ↦
      Int64.minValue.toInt ≤ n ∧ n ≤ Int64.maxValue.toInt

/-- The number a literal stands for. An operator has its binding rank instead. -/
def number (lexeme : Lexeme) : Except Token.NumberError Int :=
  match lexeme.kind.precedence? with
  | some rank => .ok rank
  | none =>
    if lexeme.kind.isNumeric then
      match readSigned? lexeme.numericText with
      | some n => .ok n
      | none => .error (.malformed lexeme.numericText)
    else .error (.noNumber lexeme.kind)

/-- The number of a literal for a slot that holds no negative ones. -/
def unsignedNumber (lexeme : Lexeme) : Except Token.NumberError Nat :=
  if lexeme.kind.isNumeric then
    match readUnsigned? lexeme.numericText with
    | some n => .ok n
    | none => .error (.malformed lexeme.numericText)
  else .error (.noNumber lexeme.kind)

end Lexeme

namespace Token

def kind (token : Token) : Kind := token.lexeme.kind

def text (token : Token) : String := token.lexeme.text

def components (token : Token) : List String := token.lexeme.components

/-- A token that stands in no source. -/
def synthetic (kind : Kind) (text : String) : Token := ⟨.plain kind text, .nowhere, none⟩

/-- The short form used in messages: the kind, and the quoted text in parentheses. -/
def display (token : Token) : String := s!"{token.kind.name}({Quoted.string token.text})"

end Token

end ResourceLang
