import ResourceLang.Schema.Field
import ResourceLang.Schema.Template

/-!
Type declarations: a name, a code of four characters, the template of the type's resources, and the
fields by which a user fills it. No two fields have the same name.
-/

set_option autoImplicit false
set_option relaxedAutoImplicit false

namespace ResourceLang

structure TypeDecl where
  label : Token
  code : String
  template : Template
  fields : List Field
  distinct : (fields.map Field.name).Nodup
  deriving DecidableEq, Repr

namespace TypeDecl

def empty (label : Token) (code : String) : TypeDecl := ⟨label, code, .empty, [], List.nodup_nil⟩

def name (decl : TypeDecl) : String := decl.label.text

/-- Adds a slot to the template, and gives its index there. -/
def addSlot (decl : TypeDecl) (label : Token) (type : SlotType) : TypeDecl × Except DeclError Nat :=
  (decl.template.add label type).map (fun template ↦ { decl with template }) id

def addField (decl : TypeDecl) (field : Field) : TypeDecl × Except DeclError Unit :=
  if h : field.name ∈ decl.fields.map Field.name then
    (decl, .error ⟨.duplicateField, field.label⟩)
  else
    (⟨decl.label, decl.code, decl.template, decl.fields ++ [field], by
      rw [List.map_append, List.nodup_append]
      refine ⟨decl.distinct, by simp, ?_⟩
      rintro a ha b hb rfl
      have hl : a = field.name := by simpa using hb
      exact h (hl ▸ ha)⟩, .ok ())

/-- The field that a token names. -/
def fieldNamed (decl : TypeDecl) (name : Token) : Except DeclError Field :=
  match decl.fields.find? fun field ↦ field.name = name.text with
  | some field => .ok field
  | none => .error ⟨.unknownField, name⟩

/-- The index of a slot that an entry names; a missing one is reported where the entry names it. -/
def slotIndex (decl : TypeDecl) (target : String × FieldEntry) : Except DeclError Nat :=
  match decl.template.indexOf? target.1 with
  | some index => .ok index
  | none =>
    let slot := target.2.slot
    .error ⟨.unknownTemplateField, ⟨.plain .identifier target.1, slot.place, slot.source⟩⟩

/-- The indices of the slots that a field fills, in the order of its entries. -/
def slotsOf (decl : TypeDecl) (name : Token) : Except DeclError (List Nat) :=
  match decl.fieldNamed name with
  | .ok field => field.targets.mapM decl.slotIndex
  | .error error => .error error

end TypeDecl

end ResourceLang
