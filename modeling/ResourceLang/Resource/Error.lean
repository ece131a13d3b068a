import ResourceLang.Slot.Type

/-!
Why values cannot be written into a resource or read out of bytes, each with the field it concerns.
-/

set_option autoImplicit false
set_option relaxedAutoImplicit false

namespace ResourceLang

inductive WriteError
  | unknownField (field : String)
  | missingValue (field : String)
  | typeMismatch (field : String) (expected : SlotType) (found : String)
  | unsupportedType (field : String) (type : SlotType)
  | valueOutOfRange (field literal : String)
  | invalidLiteral (field literal : String)
  | tooManyValues (field : String) (expected found : Nat)
  deriving DecidableEq, Repr

def WriteError.message : WriteError → String
  | unknownField field => s!"Unknown field: {field}"
  | missingValue field => s!"Missing value for field: {field}"
  | typeMismatch field expected found =>
    s!"Type mismatch in field {field}: template expects {expected.mnemonic}, value is {found}"
  | unsupportedType field type => s!"Unsupported type {type.mnemonic} for field {field}"
  | valueOutOfRange field literal => s!"Value {literal} out of range for field {field}"
  | invalidLiteral field literal => s!"Invalid literal {literal} for field {field}"
  | tooManyValues field expected found => s!"Field {field} takes {expected} values, {found} given"

inductive ReadError
  | notFound (code : String) (id : Int)
  | unsupportedType (field : String) (type : SlotType)
  | truncated (field : String)
  deriving DecidableEq, Repr

def ReadError.message : ReadError → String
  | notFound code id => s!"No resource {code} #{id}"
  | unsupportedType field type => s!"Unsupported type {type.mnemonic} for field {field}"
  | truncated field => s!"Data ended while reading field {field}: failed to fill whole buffer"

end ResourceLang
