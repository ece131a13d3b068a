import ResourceLang.Schema.Error

/-!
Fields as a user writes them. A field has entries; each names the slots it fills, may have a
default, and has symbols that stand for literals. How often a field repeats and whether an entry
refers to another resource is recorded with the declaration and changes nothing about the slots.
-/

set_option autoImplicit false
set_option relaxedAutoImplicit false

namespace ResourceLang

structure Symbol where
  label : Token
  literal : Token
  deriving DecidableEq, Repr

def Symbol.name (symbol : Symbol) : String := symbol.label.text

/-- Names for literals; each name is bound once. -/
structure SymbolTable where
  symbols : List Symbol
  distinct : (symbols.map Symbol.name).Nodup
  deriving DecidableEq, Repr

namespace SymbolTable

def empty : SymbolTable := ⟨[], List.nodup_nil⟩

def add (table : SymbolTable) (label literal : Token) : SymbolTable × Except DeclError Unit :=
  if h : label.text ∈ table.symbols.map Symbol.name then
    (table, .error ⟨.duplicateSymbol, label⟩)
  else
    (⟨table.symbols ++ [⟨label, literal⟩], by
      rw [List.map_append, List.nodup_append]
      refine ⟨table.distinct, by simp, ?_⟩
      rintro a ha b hb rfl
      have hl : a = label.text := by simpa [Symbol.name] using hb
      exact h (hl ▸ ha)⟩, .ok ())

def get? (table : SymbolTable) (name : String) : Option Token :=
  (table.symbols.find? fun symbol ↦ symbol.name = name).map Symbol.literal

/-- The literal of a symbol in place of the identifier that names it; any other token is itself. -/
def resolve (table : SymbolTable) (token : Token) : Token :=
  match token.kind with
  | .identifier => (table.get? token.text).getD token
  | _ => token

end SymbolTable

/-- Whether an entry takes a value or refers to another resource. -/
inductive EntryMode
  | value
  | reference
  deriving DecidableEq, Repr

structure FieldEntry where
  slot : Token
  mode : EntryMode
  default? : Option Token
  extensions : List Token
  symbols : SymbolTable
  deriving DecidableEq, Repr

namespace FieldEntry

def addSymbol (entry : FieldEntry) (label literal : Token) : FieldEntry × Except DeclError Unit :=
  (entry.symbols.add label literal).map (fun symbols ↦ { entry with symbols }) id

/-- The names of the slots to fill: the slot itself, or one for each extension of its name. -/
def slotNames (entry : FieldEntry) : List String :=
  match entry.extensions with
  | [] => [entry.slot.text]
  | extensions => extensions.map fun extension ↦ entry.slot.text ++ extension.text

/-- The default with symbols replaced. -/
def defaultLiteral? (entry : FieldEntry) : Option Token := entry.default?.map entry.symbols.resolve

end FieldEntry

/-- Bounds on how often a field may stand, both included. -/
structure Repeat where
  lower : Int
  upper : Int
  deriving DecidableEq, Repr

/-- How many times the bounds allow, up to what 64 bits can count. -/
def Repeat.count (bounds : Repeat) : Nat :=
  min (bounds.upper - bounds.lower + 1).toNat (UInt64.size - 1)

structure Field where
  label : Token
  entries : List FieldEntry
  repeat? : Option Repeat
  deriving DecidableEq, Repr

namespace Field

def name (field : Field) : String := field.label.text

/-- The names of the slots to fill, each with the entry it belongs to. -/
def targets (field : Field) : List (String × FieldEntry) :=
  field.entries.flatMap fun entry ↦ entry.slotNames.map fun slot ↦ (slot, entry)

end Field

end ResourceLang
