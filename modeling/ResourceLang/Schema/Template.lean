import ResourceLang.Schema.Error
import ResourceLang.Slot.Type

/-!
Templates: the slots of a resource in the order of their bytes. No two slots of a template have the
same name, so a name leads to one slot at most.
-/

set_option autoImplicit false
set_option relaxedAutoImplicit false

namespace ResourceLang

structure Slot where
  label : Token
  type : SlotType
  deriving DecidableEq, Repr

def Slot.name (slot : Slot) : String := slot.label.text

structure Template where
  slots : List Slot
  distinct : (slots.map Slot.name).Nodup
  deriving DecidableEq, Repr

namespace Template

def empty : Template := ⟨[], List.nodup_nil⟩

def names (template : Template) : List String := template.slots.map Slot.name

def size (template : Template) : Nat := template.slots.length

def isEmpty (template : Template) : Bool := template.slots.isEmpty

/-- Adds a slot at the end, and gives the index of that slot. -/
def add (template : Template) (label : Token) (type : SlotType) : Template × Except DeclError Nat :=
  if h : label.text ∈ template.names then (template, .error ⟨.duplicateTemplateField, label⟩)
  else
    let after : Template := ⟨template.slots ++ [⟨label, type⟩], by
      rw [List.map_append, List.nodup_append]
      refine ⟨template.distinct, by simp, ?_⟩
      rintro a ha b hb rfl
      have hl : a = label.text := by simpa [Slot.name] using hb
      exact h (hl ▸ ha)⟩
    (after, .ok (after.size - 1))

/-- The template of some named types, whose slots are added one by one. -/
def ofList (slots : List (String × SlotType)) : Except DeclError Template :=
  let step (template : Template) (slot : String × SlotType) : Except DeclError Template :=
    match template.add (.synthetic .identifier slot.1) slot.2 with
    | (after, .ok _) => .ok after
    | (_, .error error) => .error error
  slots.foldlM step empty

def get? (template : Template) (index : Nat) : Option Slot := template.slots[index]?

def indexOf? (template : Template) (name : String) : Option Nat :=
  template.slots.findIdx? fun slot ↦ slot.name = name

/-- The slot of a name, with its index. -/
def find? (template : Template) (name : String) : Option (Nat × Slot) :=
  (template.indexOf? name).bind fun index ↦ (template.get? index).map fun slot ↦ (index, slot)

/-- The slot that a token names. -/
def named (template : Template) (name : Token) : Except DeclError Slot :=
  match template.find? name.text with
  | some (_, slot) => .ok slot
  | none => .error ⟨.unknownTemplateField, name⟩

/-- The bytes of a resource, where every resource of the template has as many. -/
def fixedSize? (template : Template) : Option Nat :=
  template.slots.foldr (fun slot size ↦ slot.type.fixedSize?.bind fun n ↦ size.map (n + ·)) (some 0)

end Template

end ResourceLang
