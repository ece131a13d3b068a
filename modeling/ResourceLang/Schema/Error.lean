import ResourceLang.Token.Basic

/-!
What can be wrong with a declaration, reported at the token that names the trouble.
-/

set_option autoImplicit false
set_option relaxedAutoImplicit false

namespace ResourceLang

namespace DeclError

inductive Cause
  | duplicateTemplateField
  | duplicateField
  | duplicateSymbol
  | unknownTemplateField
  | unknownField
  deriving DecidableEq, Repr

def Cause.describe : Cause → String
  | duplicateTemplateField => "duplicate template field"
  | duplicateField => "duplicate field"
  | duplicateSymbol => "duplicate symbol"
  | unknownTemplateField => "unknown template field"
  | unknownField => "unknown field"

end DeclError

structure DeclError where
  cause : DeclError.Cause
  token : Token
  deriving DecidableEq, Repr

def DeclError.message (error : DeclError) : String :=
  s!"{error.cause.describe} '{error.token.text}'"

end ResourceLang
