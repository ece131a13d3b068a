import ResourceLang.Log
import ResourceLang.Schema.Error
import ResourceLang.Source
import ResourceLang.Token.LexError

/-!
Diagnostics: messages of some severity, reported at a token where there is one.
-/

set_option autoImplicit false
set_option relaxedAutoImplicit false

namespace ResourceLang

inductive Severity
  | info
  | warning
  | error
  deriving DecidableEq, Repr

namespace Severity

def name : Severity → String
  | info => "info"
  | warning => "warning"
  | error => "error"

def rank : Severity → Nat
  | info => 0
  | warning => 1
  | error => 2

/-- The level at which a diagnostic goes into the log. -/
def level : Severity → Log.Level
  | info => .info
  | warning => .warn
  | error => .error

/-- The graver of two. -/
def graver (a b : Severity) : Severity := if a.rank < b.rank then b else a

end Severity

structure Diagnostic where
  severity : Severity
  token? : Option Token
  message : String
  deriving DecidableEq, Repr

namespace Diagnostic

def error (token : Token) (message : String) : Diagnostic := ⟨.error, some token, message⟩

def ofDeclError (fault : DeclError) : Diagnostic := .error fault.token fault.message

/-- The place a lexical error is reported at. At the end of a text only the position is known. -/
def placeOf : LexError → Place
  | .unrecognisedCharacter _ place => place
  | .unexpectedEnd position => ⟨position, 0, 0⟩
  | .malformedResourceId place => place
  | .unterminatedString place => place

/-- The offending text of a lexical error. -/
def textOf : LexError → String
  | .unrecognisedCharacter found _ => String.singleton found
  | _ => ""

def ofLexError (fault : LexError) (source : Option SourceId) : Diagnostic :=
  .error ⟨.plain .identifier (textOf fault), placeOf fault, source⟩ fault.message

/-- The place, the severity and the message; there is no place without a token. -/
def render (diagnostic : Diagnostic) (map : Sources) : String :=
  let rest := s!"{diagnostic.severity.name}: {diagnostic.message}"
  match diagnostic.token? with
  | some token => s!"{map.describe token.source token.place}: {rest}"
  | none => rest

def toLog (diagnostic : Diagnostic) (map : Sources) : Log.Entry :=
  ⟨diagnostic.severity.level, diagnostic.render map⟩

def isError (diagnostic : Diagnostic) : Bool := diagnostic.severity = .error

/-- How many of the reports are errors. -/
def errorCount (reports : List Diagnostic) : Nat := reports.countP isError

def hasErrors (reports : List Diagnostic) : Bool := 0 < errorCount reports

/-- The gravest severity among the reports. -/
def worst? (reports : List Diagnostic) : Option Severity :=
  reports.foldl
    (fun worst report ↦ some ((worst.map (Severity.graver report.severity)).getD report.severity))
    none

end Diagnostic

end ResourceLang
