import ResourceLang.Source
import ResourceLang.Text.Quoted

/-!
Why a text cannot be cut into tokens, and where.
-/

set_option autoImplicit false
set_option relaxedAutoImplicit false

namespace ResourceLang

open Text

inductive LexError
  | unrecognisedCharacter (found : Char) (place : Place)
  | unexpectedEnd (position : Nat)
  | malformedResourceId (place : Place)
  | unterminatedString (place : Place)
  deriving DecidableEq, Repr

namespace LexError

def position : LexError → Nat
  | unrecognisedCharacter _ place => place.position
  | unexpectedEnd position => position
  | malformedResourceId place => place.position
  | unterminatedString place => place.position

def message : LexError → String
  | unrecognisedCharacter found place =>
    s!"unrecognised character {Quoted.character found} at {place.line}:{place.offset}"
  | unexpectedEnd position => s!"unexpected end of input at byte {position}"
  | malformedResourceId place => s!"malformed resource id at {place.line}:{place.offset}"
  | unterminatedString place =>
    s!"unterminated string literal starting at {place.line}:{place.offset}"

end LexError

/-- What cutting a text comes to can be compared with what it should come to. -/
instance decidableEqExcept {ε α : Type} [DecidableEq ε] [DecidableEq α] : DecidableEq (Except ε α)
  | .ok a, .ok b => decidable_of_iff (a = b) ⟨congrArg _, Except.ok.inj⟩
  | .error a, .error b => decidable_of_iff (a = b) ⟨congrArg _, Except.error.inj⟩
  | .ok _, .error _ => isFalse nofun
  | .error _, .ok _ => isFalse nofun

end ResourceLang
