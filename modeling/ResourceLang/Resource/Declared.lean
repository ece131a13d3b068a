import ResourceLang.Resource.Basic

/-!
Writing a resource through its declaration. A field is written from literals in the order of its
slots, with defaults for those that are left out at the end, and defaults fill the slots that
nothing was written to. Both go slot by slot and stop at the first error, with the slots before it
written.
-/

set_option autoImplicit false
set_option relaxedAutoImplicit false

namespace ResourceLang

/-- A slot by name, and the literal to write into it if there is one. -/
structure Assignment where
  slot : String
  literal? : Option Token
  deriving DecidableEq, Repr

namespace Field

/-- The literals go to the slots in order; a slot without one takes the default of its entry.
Symbols are those of the entry that a slot belongs to. -/
def assign : List (String × FieldEntry) → List Token → List Assignment
  | [], _ => []
  | (slot, entry) :: targets, literals =>
    ⟨slot, (literals.head?.or entry.default?).map entry.symbols.resolve⟩ ::
      assign targets literals.tail

def assignments (field : Field) (literals : List Token) : List Assignment :=
  assign field.targets literals

/-- The slots of entries that have a default, each with that default. -/
def defaults (field : Field) : List (String × Token) :=
  field.entries.flatMap fun entry ↦
    match entry.defaultLiteral? with
    | some literal => entry.slotNames.map fun slot ↦ (slot, literal)
    | none => []

end Field

namespace Resource

/-- Carries out assignments in order up to the first that fails. -/
def assignAll (resource : Resource) : List Assignment → Resource × Except WriteError Unit
  | [] => (resource, .ok ())
  | assignment :: rest =>
    match assignment.literal? with
    | none => (resource, .error (.missingValue assignment.slot))
    | some literal =>
      match resource.setLiteral assignment.slot literal with
      | (written, .ok ()) => written.assignAll rest
      | (after, .error error) => (after, .error error)

/-- Writes a declared field. More literals than slots are refused before anything is written. -/
def setField (resource : Resource) (decl : TypeDecl) (name : Token) (literals : List Token) :
    Resource × Except WriteError Unit :=
  match decl.fieldNamed name with
  | .error _ => (resource, .error (.unknownField name.text))
  | .ok field =>
    if field.targets.length < literals.length then
      (resource, .error (.tooManyValues field.name field.targets.length literals.length))
    else resource.assignAll (field.assignments literals)

/-- Writes the defaults of slots that have no value yet, and adds up how many it wrote. -/
def fillAll (resource : Resource) (count : Nat) :
    List (String × Token) → Resource × Except WriteError Nat
  | [] => (resource, .ok count)
  | (slot, literal) :: rest =>
    if resource.isSet slot then resource.fillAll count rest
    else
      match resource.setLiteral slot literal with
      | (written, .ok ()) => written.fillAll (count + 1) rest
      | (after, .error error) => (after, .error error)

/-- Fills every unwritten slot that a declaration has a default for. -/
def fillDefaults (resource : Resource) (decl : TypeDecl) : Resource × Except WriteError Nat :=
  resource.fillAll 0 (decl.fields.flatMap Field.defaults)

def fillDefaultsLog (resource : Resource) (decl : TypeDecl) : List Log.Entry :=
  match (resource.fillDefaults decl).2 with
  | .ok count => [Log.detail s!"{resource.code} #{resource.id}: {count} defaults applied"]
  | .error _ => []

end Resource

end ResourceLang
