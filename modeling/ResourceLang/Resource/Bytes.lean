import ResourceLang.Log
import ResourceLang.Resource.Error
import ResourceLang.Schema.Template
import ResourceLang.Slot.Layout
import Std.Data.ExtTreeMap

/-!
The values of a template as bytes. Slots follow one another in template order with nothing between
them. `encode` gives the bytes of all slots or none; `decode` fills slots until one cannot be read
and keeps those before it.
-/

set_option autoImplicit false
set_option relaxedAutoImplicit false

namespace ResourceLang

open Text

/-- Values by slot index, in the order of the indices. -/
abbrev SlotMap := Std.ExtTreeMap Nat Value

namespace Slot

def encode (slot : Slot) (value : Value) : Except WriteError (List UInt8) :=
  match Layout.encode slot.type value with
  | .ok bs => .ok bs
  | .error .unsupported => .error (.unsupportedType slot.name slot.type)
  | .error .mismatch => .error (.typeMismatch slot.name slot.type value.typeName)
  | .error (.embeddedNul text) => .error (.invalidLiteral slot.name (Quoted.bare text))

def decode (slot : Slot) (bs : List UInt8) : Except ReadError (Value × List UInt8) :=
  match Layout.decode slot.type bs with
  | .ok result => .ok result
  | .error .unsupported => .error (.unsupportedType slot.name slot.type)
  | .error .truncated => .error (.truncated slot.name)

end Slot

namespace Template

/-- The bytes of `slots`, the first of which has the index `index`. -/
def encodeFrom (values : SlotMap) (index : Nat) : List Slot → Except WriteError (List UInt8)
  | [] => .ok []
  | slot :: slots =>
    match values[index]? with
    | none => .error (.missingValue slot.name)
    | some value => do
      let bs ← slot.encode value
      let rest ← encodeFrom values (index + 1) slots
      return bs ++ rest

def encode (template : Template) (values : SlotMap) : Except WriteError (List UInt8) :=
  encodeFrom values 0 template.slots

/-- The values read into `slots`, and the bytes left over unless a slot could not be read. -/
def decodeFrom (values : SlotMap) (index : Nat) (bs : List UInt8) :
    List Slot → SlotMap × Except ReadError (List UInt8)
  | [] => (values, .ok bs)
  | slot :: slots =>
    match slot.decode bs with
    | .error error => (values, .error error)
    | .ok (value, rest) => decodeFrom (values.insert index value) (index + 1) rest slots

def decode (template : Template) (values : SlotMap) (bs : List UInt8) :
    SlotMap × Except ReadError (List UInt8) :=
  decodeFrom values 0 bs template.slots

def truncationLog (slot : Slot) (value : Value) : List Log.Entry :=
  match Layout.truncation? slot.type value with
  | some (size, kept) => [Log.warning s!"field {slot.name}: {size} bytes truncated to {kept}"]
  | none => []

/-- The log lines of `encodeFrom`, with `position` bytes written before. -/
def encodeLogFrom (values : SlotMap) (index position : Nat) : List Slot → List Log.Entry
  | [] => []
  | slot :: slots =>
    match values[index]? with
    | none => []
    | some value =>
      let start := Log.detail s!"assemble {slot.name} {slot.type.mnemonic} at {position}"
      match slot.encode value with
      | .error _ => [start]
      | .ok bs =>
        start :: truncationLog slot value ++
          encodeLogFrom values (index + 1) (position + bs.length) slots

def encodeLog (template : Template) (values : SlotMap) : List Log.Entry :=
  encodeLogFrom values 0 0 template.slots

/-- The log lines of `decodeFrom`, with `position` bytes read before. -/
def decodeLogFrom (position : Nat) (bs : List UInt8) : List Slot → List Log.Entry
  | [] =>
    match bs.length with
    | 0 => []
    | count + 1 => [Log.detail s!"populate left {count + 1} trailing bytes"]
  | slot :: slots =>
    let start := Log.detail s!"populate {slot.name} {slot.type.mnemonic} at {position}"
    match slot.decode bs with
    | .error error =>
      [start, Log.warning s!"populate stopped at field {slot.name}: {error.message}"]
    | .ok (_, rest) => start :: decodeLogFrom (position + (bs.length - rest.length)) rest slots

def decodeLog (template : Template) (bs : List UInt8) : List Log.Entry :=
  decodeLogFrom 0 bs template.slots

end Template

end ResourceLang
