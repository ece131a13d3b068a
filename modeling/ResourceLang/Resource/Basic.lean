import ResourceLang.Resource.Bytes
import ResourceLang.Resource.Literal
import ResourceLang.Schema.TypeDecl

/-!
Resources: values for the slots of a template, written in any order. A write names a slot. Whatever
changes a resource gives the resource after it beside its outcome, for it may fail half way: reading
bytes stops at the first slot that cannot be read, with the slots before it filled.
-/

set_option autoImplicit false
set_option relaxedAutoImplicit false

namespace ResourceLang

open Text

structure Resource where
  code : String
  id : Int
  name : String
  template : Template
  values : SlotMap

namespace Resource

/-- A resource with nothing written. -/
def blank (template : Template) (code : String) (id : Int) (name : String) : Resource :=
  ⟨code, id, name, template, ∅⟩

/-- A resource of a declared type. -/
def ofDecl (decl : TypeDecl) (id : Int) (name : String) : Resource :=
  blank decl.template decl.code id name

def valueAt? (resource : Resource) (index : Nat) : Option Value := resource.values[index]?

def value? (resource : Resource) (field : String) : Option Value :=
  (resource.template.indexOf? field).bind resource.valueAt?

def isSet (resource : Resource) (field : String) : Bool := (resource.value? field).isSome

/-- Every slot has a value, and one that fits it. -/
def isComplete (resource : Resource) : Bool :=
  resource.template.slots.zipIdx.all fun (slot, index) ↦
    (resource.valueAt? index).any fun value ↦ value.fits slot.type

/-- The resource with the value at an index replaced. -/
def setAt (resource : Resource) (index : Nat) (value : Value) : Resource :=
  { resource with values := resource.values.insert index value }

def slotNamed (resource : Resource) (field : String) : Except WriteError (Nat × Slot) :=
  match resource.template.find? field with
  | some found => .ok found
  | none => .error (.unknownField field)

/-- Writes any value; whether it fits the slot shows when its bytes are asked for. -/
def set (resource : Resource) (field : String) (value : Value) :
    Resource × Except WriteError Unit :=
  match resource.slotNamed field with
  | .ok (index, _) => (resource.setAt index value, .ok ())
  | .error error => (resource, .error error)

def setSigned (resource : Resource) (field : String) (width : Width) (n : BitVec width.bits) :
    Resource × Except WriteError Unit :=
  resource.set field (.signed width n)

def setUnsigned (resource : Resource) (field : String) (width : Width) (n : BitVec width.bits) :
    Resource × Except WriteError Unit :=
  resource.set field (.unsigned width n)

def setRect (resource : Resource) (field : String) (rect : Rect) :
    Resource × Except WriteError Unit :=
  resource.set field (.rect rect)

def setPascal (resource : Resource) (field text : String) : Resource × Except WriteError Unit :=
  resource.set field (.ofText text)

/-- Writes a text without NULs; its length hint is the width of a fixed slot, or zero. -/
def setTerminated (resource : Resource) (field text : String) :
    Resource × Except WriteError Unit :=
  match resource.slotNamed field with
  | .error error => (resource, .error error)
  | .ok (_, slot) =>
    if '\x00' ∈ text.toList then (resource, .error (.invalidLiteral field (Quoted.bare text)))
    else
      let length := match slot.type with
        | .fixed width => width.toNat
        | _ => 0
      resource.set field (.string text length)

def setData (resource : Resource) (field : String) (data : List UInt8) :
    Resource × Except WriteError Unit :=
  resource.set field (.bytes data)

/-- Writes what a literal means in the slot. -/
def setLiteral (resource : Resource) (field : String) (token : Token) :
    Resource × Except WriteError Unit :=
  match resource.slotNamed field with
  | .error error => (resource, .error error)
  | .ok (index, slot) =>
    match Literal.toValue slot.type token.lexeme with
    | .ok value => (resource.setAt index value, .ok ())
    | .error fault => (resource, .error (fault.toError field slot.type token.lexeme))

/-- The bytes of all slots in template order. -/
def toBytes (resource : Resource) : Except WriteError (List UInt8) :=
  resource.template.encode resource.values

def toBytesLog (resource : Resource) : List Log.Entry :=
  resource.template.encodeLog resource.values

/-- Reads bytes into the slots; what the last slot leaves over is ignored. -/
def readBytes (resource : Resource) (bs : List UInt8) : Resource × Except ReadError Unit :=
  let (values, outcome) := resource.template.decode resource.values bs
  ({ resource with values }, outcome.map fun _ ↦ ())

def readBytesLog (resource : Resource) (bs : List UInt8) : List Log.Entry :=
  resource.template.decodeLog bs

end Resource

end ResourceLang
