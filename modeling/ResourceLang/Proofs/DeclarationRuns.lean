import Mathlib.Data.List.Nodup
import Mathlib.Logic.Function.Basic
import ResourceLang.Schema.TypeDecl

/-!
Declarations while they are made. Slots, fields and symbols are added one by one, and a name is
taken by the first call that brings it: a later one of the same name is refused at its own token and
changes nothing. So what a name stands for never changes, whatever is declared after it.
-/

set_option autoImplicit false
set_option relaxedAutoImplicit false

namespace ResourceLang.Proofs.DeclarationRuns

/-- A declaration in the making, and the entries that its fields are made of. -/
structure Draft where
  decl : TypeDecl
  entries : Nat → FieldEntry

/-- Nothing is declared yet, and no entry has symbols. -/
def start (label : Token) (code : String) (shapes : Nat → FieldEntry) : Draft :=
  ⟨.empty label code, fun entry ↦ { shapes entry with symbols := .empty }⟩

/-- A call that adds to a draft. A field is made of copies of entries as they are at the call. -/
inductive Call
  | addSlot (label : Token) (type : SlotType)
  | addField (label : Token) (entries : List Nat) (repeat? : Option Repeat)
  | addSymbol (entry : Nat) (label literal : Token)

/-- What a call gives that succeeds: the index of a slot, and nothing for a field or a symbol. -/
def Call.Given : Call → Type
  | .addSlot _ _ => Nat
  | .addField _ _ _ | .addSymbol _ _ _ => Unit

/-- The draft that a call leaves behind, whatever comes of the call, and what the call gives. -/
def perform (draft : Draft) : (call : Call) → Draft × Except DeclError call.Given
  | .addSlot label type =>
    (draft.decl.addSlot label type).map (fun decl ↦ { draft with decl }) id
  | .addField label entries repeat? =>
    (draft.decl.addField ⟨label, entries.map draft.entries, repeat?⟩).map
      (fun decl ↦ { draft with decl }) id
  | .addSymbol entry label literal =>
    ((draft.entries entry).addSymbol label literal).map
      (fun after ↦ { draft with entries := Function.update draft.entries entry after }) id

/-- The draft after some calls. -/
def run (draft : Draft) (calls : List Call) : Draft :=
  calls.foldl (fun draft call ↦ (perform draft call).1) draft

/-- A name, and what it is a name among: the slots, the fields, or the symbols of an entry. -/
inductive Key
  | slot (name : String)
  | field (name : String)
  | symbol (entry : Nat) (name : String)

namespace Call

/-- The token that a call names its addition by. -/
def label : Call → Token
  | addSlot label _ => label
  | addField label _ _ => label
  | addSymbol _ label _ => label

def key : Call → Key
  | addSlot label _ => .slot label.text
  | addField label _ _ => .field label.text
  | addSymbol entry label _ => .symbol entry label.text

/-- Why a call is refused whose key is taken. -/
def cause : Call → DeclError.Cause
  | addSlot _ _ => .duplicateTemplateField
  | addField _ _ _ => .duplicateField
  | addSymbol _ _ _ => .duplicateSymbol

end Call

/-- The names of an entry's symbols. -/
def symbolNames (entry : FieldEntry) : List String := entry.symbols.symbols.map Symbol.name

def Taken (draft : Draft) : Key → Prop
  | .slot name => name ∈ draft.decl.template.names
  | .field name => name ∈ draft.decl.fields.map Field.name
  | .symbol entry name => name ∈ symbolNames (draft.entries entry)

/-- A call adds one thing at the end of its list and changes nothing else. It gives the index of a
slot. -/
def Adds (draft after : Draft) : (call : Call) → call.Given → Prop
  | .addSlot label type, index =>
    after.decl.template.slots = draft.decl.template.slots ++ [⟨label, type⟩] ∧
      after.decl.template.get? index = some ⟨label, type⟩ ∧
        after.decl.fields = draft.decl.fields ∧ after.entries = draft.entries
  | .addField label entries repeat?, _ =>
    after.decl.template = draft.decl.template ∧
      after.decl.fields = draft.decl.fields ++ [⟨label, entries.map draft.entries, repeat?⟩] ∧
        after.entries = draft.entries
  | .addSymbol entry label literal, _ =>
    after.decl = draft.decl ∧
      (after.entries entry).symbols.symbols =
        (draft.entries entry).symbols.symbols ++ [⟨label, literal⟩] ∧
        ∀ other, other ≠ entry → after.entries other = draft.entries other

/-- Everything that is in a draft stays where it is. -/
structure Grows (draft later : Draft) : Prop where
  slots : draft.decl.template.slots <+: later.decl.template.slots
  fields : draft.decl.fields <+: later.decl.fields
  symbols : ∀ entry, (draft.entries entry).symbols.symbols <+: (later.entries entry).symbols.symbols

/-- What a call added to a draft is found later under its name: a slot at the index that the call
gave, a field with the entries that it was made of, and a symbol's literal in place of every
identifier that names the symbol. -/
def Found (draft later : Draft) : (call : Call) → call.Given → Prop
  | .addSlot label type, index =>
    later.decl.template.indexOf? label.text = some index ∧
      later.decl.template.get? index = some ⟨label, type⟩
  | .addField label entries repeat?, _ =>
    ∀ name : Token, name.text = label.text →
      later.decl.fieldNamed name = .ok ⟨label, entries.map draft.entries, repeat?⟩
  | .addSymbol entry label literal, _ =>
    (later.entries entry).symbols.get? label.text = some literal ∧
      ∀ token : Token, token.kind = .identifier → token.text = label.text →
        (later.entries entry).symbols.resolve token = literal

/-- No two slots, fields or symbols of one entry share a name, and the name of a slot leads to its
index. -/
structure Lawful (draft : Draft) : Prop where
  slots : draft.decl.template.names.Nodup
  fields : (draft.decl.fields.map Field.name).Nodup
  symbols : ∀ entry, (symbolNames (draft.entries entry)).Nodup
  fieldSymbols : ∀ field ∈ draft.decl.fields, ∀ entry ∈ field.entries, (symbolNames entry).Nodup
  index : ∀ index slot, draft.decl.template.get? index = some slot →
    draft.decl.template.indexOf? slot.name = some index

variable {draft after later : Draft} {call : Call} {calls : List Call} {key : Key}

/-! ### Lookups among distinct names -/

section Distinct

variable {α : Type} {name : α → String} {items : List α} {item : α}

theorem findIdx?_of_nodup (hdistinct : (items.map name).Nodup) {index : Nat}
    (h : items[index]? = some item) :
    items.findIdx? (fun other ↦ name other = name item) = some index := by
  obtain ⟨hindex, rfl⟩ := List.getElem?_eq_some_iff.mp h
  rw [List.findIdx?_eq_some_iff_getElem]
  refine ⟨hindex, by simp, ?_⟩
  intro earlier hearlier hsame
  have hname : name (items[earlier]) = name (items[index]) := by simpa using hsame
  have hitem : items[earlier] = items[index] :=
    List.inj_on_of_nodup_map hdistinct (List.getElem_mem _) (List.getElem_mem hindex) hname
  exact Nat.ne_of_lt hearlier ((List.Nodup.of_map name hdistinct).getElem_inj_iff.mp hitem)

theorem find?_of_nodup (hdistinct : (items.map name).Nodup) (h : item ∈ items) :
    items.find? (fun other ↦ name other = name item) = some item := by
  cases hfind : items.find? (fun other ↦ name other = name item) with
  | none => simpa using List.find?_eq_none.mp hfind item h
  | some other =>
    have hname : name other = name item := by simpa using List.find?_some hfind
    rw [List.inj_on_of_nodup_map hdistinct (List.mem_of_find?_eq_some hfind) h hname]

end Distinct

theorem indexOf?_of_get? {template : Template} {index : Nat} {slot : Slot}
    (h : template.get? index = some slot) : template.indexOf? slot.name = some index :=
  findIdx?_of_nodup template.distinct h

theorem fieldNamed_of_mem {decl : TypeDecl} {field : Field} (h : field ∈ decl.fields) {name : Token}
    (hname : name.text = field.name) : decl.fieldNamed name = .ok field := by
  rw [TypeDecl.fieldNamed, hname, find?_of_nodup decl.distinct h]

theorem get?_of_mem {table : SymbolTable} {symbol : Symbol} (h : symbol ∈ table.symbols) :
    table.get? symbol.name = some symbol.literal := by
  rw [SymbolTable.get?, find?_of_nodup table.distinct h]
  rfl

theorem resolve_of_mem {table : SymbolTable} {symbol : Symbol} (h : symbol ∈ table.symbols)
    {token : Token} (hkind : token.kind = .identifier) (hname : token.text = symbol.name) :
    table.resolve token = symbol.literal := by
  rw [SymbolTable.resolve, hkind, hname, get?_of_mem h]
  rfl

theorem lawful (draft : Draft) : Lawful draft where
  slots := draft.decl.template.distinct
  fields := draft.decl.distinct
  symbols entry := (draft.entries entry).symbols.distinct
  fieldSymbols _ _ entry _ := entry.symbols.distinct
  index _ _ := indexOf?_of_get?

/-! ### One call -/

theorem perform_of_taken (h : Taken draft call.key) :
    perform draft call = (draft, .error ⟨call.cause, call.label⟩) := by
  cases call with
  | addSlot label type =>
    have htaken : label.text ∈ draft.decl.template.names := h
    rw [perform, TypeDecl.addSlot, Template.add, dif_pos htaken]
    rfl
  | addField label entries repeat? =>
    have htaken : Field.name ⟨label, entries.map draft.entries, repeat?⟩ ∈
        draft.decl.fields.map Field.name := h
    rw [perform, TypeDecl.addField, dif_pos htaken]
    rfl
  | addSymbol entry label literal =>
    have htaken : label.text ∈ (draft.entries entry).symbols.symbols.map Symbol.name := h
    have hsame : Function.update draft.entries entry (draft.entries entry) = draft.entries :=
      Function.update_eq_self entry draft.entries
    rw [perform, FieldEntry.addSymbol, SymbolTable.add, dif_pos htaken]
    exact Prod.ext (congrArg (Draft.mk draft.decl) hsame) rfl

theorem exists_perform_of_not_taken (h : ¬ Taken draft call.key) :
    ∃ after given, perform draft call = (after, .ok given) ∧ Adds draft after call given := by
  cases call with
  | addSlot label type =>
    have hfree : label.text ∉ draft.decl.template.names := h
    rw [perform, TypeDecl.addSlot, Template.add, dif_neg hfree]
    refine ⟨_, _, rfl, rfl, ?_, rfl, rfl⟩
    simp [Template.get?, Template.size]
  | addField label entries repeat? =>
    have hfree : Field.name ⟨label, entries.map draft.entries, repeat?⟩ ∉
        draft.decl.fields.map Field.name := h
    rw [perform, TypeDecl.addField, dif_neg hfree]
    exact ⟨_, _, rfl, rfl, rfl, rfl⟩
  | addSymbol entry label literal =>
    have hfree : label.text ∉ (draft.entries entry).symbols.symbols.map Symbol.name := h
    rw [perform, FieldEntry.addSymbol, SymbolTable.add, dif_neg hfree]
    refine ⟨_, _, rfl, rfl, ?_, ?_⟩
    · simp only [Function.update_self]
    · intro other hother
      exact Function.update_of_ne hother _ _

theorem taken_iff_of_adds {given : call.Given} (h : Adds draft after call given) :
    Taken after key ↔ Taken draft key ∨ call.key = key := by
  cases call with
  | addSlot label type =>
    obtain ⟨hslots, -, hfields, hentries⟩ := h
    cases key <;> simp [Taken, Call.key, Template.names, Slot.name, hslots, hfields, hentries,
      eq_comm]
  | addField label entries repeat? =>
    obtain ⟨htemplate, hfields, hentries⟩ := h
    cases key <;> simp [Taken, Call.key, Field.name, htemplate, hfields, hentries, eq_comm]
  | addSymbol entry label literal =>
    obtain ⟨hdecl, hsymbols, hothers⟩ := h
    cases key with
    | slot name => simp [Taken, Call.key, hdecl]
    | field name => simp [Taken, Call.key, hdecl]
    | symbol other name =>
      by_cases hother : other = entry
      · simp [Taken, Call.key, symbolNames, Symbol.name, hother, hsymbols, eq_comm]
      · simp [Taken, Call.key, hothers other hother, Ne.symm hother]

theorem taken_perform_iff :
    Taken (perform draft call).1 key ↔ Taken draft key ∨ call.key = key := by
  by_cases htaken : Taken draft call.key
  · rw [perform_of_taken htaken, or_iff_left_of_imp]
    rintro rfl
    exact htaken
  · obtain ⟨after, given, hperform, hadds⟩ := exists_perform_of_not_taken htaken
    rw [hperform]
    exact taken_iff_of_adds hadds

theorem Grows.refl (draft : Draft) : Grows draft draft :=
  ⟨List.prefix_rfl, List.prefix_rfl, fun _ ↦ List.prefix_rfl⟩

theorem Grows.trans (h : Grows draft after) (hlater : Grows after later) : Grows draft later where
  slots := h.slots.trans hlater.slots
  fields := h.fields.trans hlater.fields
  symbols entry := (h.symbols entry).trans (hlater.symbols entry)

theorem grows_of_adds {given : call.Given} (h : Adds draft after call given) :
    Grows draft after := by
  cases call with
  | addSlot label type =>
    obtain ⟨hslots, -, hfields, hentries⟩ := h
    exact ⟨by simp [hslots], by simp [hfields], by simp [hentries]⟩
  | addField label entries repeat? =>
    obtain ⟨htemplate, hfields, hentries⟩ := h
    exact ⟨by simp [htemplate], by simp [hfields], by simp [hentries]⟩
  | addSymbol entry label literal =>
    obtain ⟨hdecl, hsymbols, hothers⟩ := h
    refine ⟨by simp [hdecl], by simp [hdecl], ?_⟩
    intro other
    by_cases hother : other = entry
    · simp [hother, hsymbols]
    · simp [hothers other hother]

theorem grows_perform (draft : Draft) (call : Call) : Grows draft (perform draft call).1 := by
  by_cases htaken : Taken draft call.key
  · rw [perform_of_taken htaken]
    exact .refl draft
  · obtain ⟨after, given, hperform, hadds⟩ := exists_perform_of_not_taken htaken
    rw [hperform]
    exact grows_of_adds hadds

theorem found_of_grows {given : call.Given} (h : Adds draft after call given)
    (hlater : Grows after later) : Found draft later call given := by
  cases call with
  | addSlot label type =>
    obtain ⟨hindex, hslot⟩ := List.getElem?_eq_some_iff.mp h.2.1
    have hget : later.decl.template.get? given = some ⟨label, type⟩ := by
      rw [← hslot]
      exact List.prefix_iff_getElem?.mp hlater.slots given hindex
    exact ⟨indexOf?_of_get? hget, hget⟩
  | addField label entries repeat? =>
    have hmem : ⟨label, entries.map draft.entries, repeat?⟩ ∈ later.decl.fields := by
      apply hlater.fields.subset
      rw [h.2.1]
      simp
    intro name hname
    exact fieldNamed_of_mem hmem hname
  | addSymbol entry label literal =>
    have hmem : ⟨label, literal⟩ ∈ (later.entries entry).symbols.symbols := by
      apply (hlater.symbols entry).subset
      rw [h.2.1]
      simp
    exact ⟨get?_of_mem hmem, fun token hkind hname ↦ resolve_of_mem hmem hkind hname⟩

/-! ### Many calls -/

theorem run_append (draft : Draft) (before since : List Call) :
    run draft (before ++ since) = run (run draft before) since := List.foldl_append

theorem grows_run (draft : Draft) (calls : List Call) : Grows draft (run draft calls) := by
  induction calls generalizing draft with
  | nil => exact .refl draft
  | cons call rest ih => exact (grows_perform draft call).trans (ih _)

theorem taken_run_iff (draft : Draft) (calls : List Call) :
    Taken (run draft calls) key ↔ Taken draft key ∨ ∃ call ∈ calls, call.key = key := by
  induction calls generalizing draft with
  | nil => simp [run]
  | cons call rest ih =>
    show Taken (run (perform draft call).1 rest) key ↔ _
    rw [ih, taken_perform_iff, or_assoc, List.exists_mem_cons_iff]

theorem not_taken_start (label : Token) (code : String) (shapes : Nat → FieldEntry) (key : Key) :
    ¬ Taken (start label code shapes) key := by
  cases key <;> exact List.not_mem_nil

theorem taken_run_start_iff {label : Token} {code : String} {shapes : Nat → FieldEntry} :
    Taken (run (start label code shapes) calls) key ↔ ∃ call ∈ calls, call.key = key := by
  rw [taken_run_iff, or_iff_right (not_taken_start label code shapes key)]

/-- However slots, fields and symbols are added, names stay distinct and lead to their slots. A call
is refused exactly if an earlier one brought its name; it is then reported at its own token and
changes nothing. Whatever is added is found under its name after all later calls, as it was added,
and a slot at the index that its call gave. -/
theorem found_run (label : Token) (code : String) (shapes : Nat → FieldEntry) (calls : List Call) :
    Lawful (run (start label code shapes) calls) ∧
    ∀ before call since, calls = before ++ call :: since →
      ((∃ earlier ∈ before, earlier.key = call.key) →
        perform (run (start label code shapes) before) call =
          (run (start label code shapes) before, .error ⟨call.cause, call.label⟩)) ∧
      ((∀ earlier ∈ before, earlier.key ≠ call.key) →
        ∃ after given, perform (run (start label code shapes) before) call = (after, .ok given) ∧
          Found (run (start label code shapes) before) (run (start label code shapes) calls) call
            given) := by
  refine ⟨lawful _, ?_⟩
  rintro before call since rfl
  constructor
  · intro hearlier
    exact perform_of_taken (taken_run_start_iff.mpr hearlier)
  · intro hnew
    have hfree : ¬ Taken (run (start label code shapes) before) call.key := by
      rw [taken_run_start_iff]
      rintro ⟨earlier, hmem, hkey⟩
      exact hnew earlier hmem hkey
    obtain ⟨after, given, hperform, hadds⟩ := exists_perform_of_not_taken hfree
    refine ⟨after, given, hperform, found_of_grows hadds ?_⟩
    have hafter : run (start label code shapes) (before ++ call :: since) = run after since := by
      rw [run_append, run, List.foldl_cons, hperform]
      rfl
    rw [hafter]
    exact grows_run after since

end ResourceLang.Proofs.DeclarationRuns
