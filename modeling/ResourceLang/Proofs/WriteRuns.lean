import ResourceLang.Proofs.FieldWrites

/-!
Runs of writes. A write looks at the template of a resource and never at its values, so it stores
the same values at the same indices in every resource of the template, and comes to the same outcome
there, whether it succeeds or fails.
-/

set_option autoImplicit false
set_option relaxedAutoImplicit false

namespace ResourceLang.Proofs.WriteRuns

open FieldWrites

/-- A call that writes into a resource: a value of some kind to a slot, a literal to a slot, or
literals to a declared field. -/
inductive Write
  | value (field : String) (value : Value)
  | signed (field : String) (width : Width) (n : BitVec width.bits)
  | unsigned (field : String) (width : Width) (n : BitVec width.bits)
  | rect (field : String) (rect : Rect)
  | pascal (field text : String)
  | terminated (field text : String)
  | data (field : String) (data : List UInt8)
  | literal (field : String) (token : Token)
  | declared (decl : TypeDecl) (name : Token) (literals : List Token)

/-- What a write leaves behind, and its outcome. Only a write to a declared field may fail half
way. -/
def perform (resource : Resource) : Write → Resource × Except WriteError Unit
  | .value field value => resource.set field value
  | .signed field width n => resource.setSigned field width n
  | .unsigned field width n => resource.setUnsigned field width n
  | .rect field rect => resource.setRect field rect
  | .pascal field text => resource.setPascal field text
  | .terminated field text => resource.setTerminated field text
  | .data field data => resource.setData field data
  | .literal field token => resource.setLiteral field token
  | .declared decl name literals => resource.setField decl name literals

/-- The resource after some writes. -/
def run (resource : Resource) (writes : List Write) : Resource :=
  writes.foldl (fun resource write ↦ (perform resource write).1) resource

/-- The outcome of each write of a run. -/
def outcomes (resource : Resource) : List Write → List (Except WriteError Unit)
  | [] => []
  | write :: rest => (perform resource write).2 :: outcomes (perform resource write).1 rest

/-- The resource with values put at indices, one after another. -/
def storeAll (resource : Resource) (stores : List (Nat × Value)) : Resource :=
  stores.foldl (fun resource store ↦ resource.setAt store.1 store.2) resource

/-- A call to one slot that puts the same value at the same index of every resource of the template,
or is refused in all of them for one reason. -/
def Uniform (template : Template) (call : Resource → Resource × Except WriteError Unit) : Prop :=
  (∃ index value, ∀ resource, resource.template = template →
      call resource = (resource.setAt index value, .ok ())) ∨
    ∃ error, ∀ resource, resource.template = template → call resource = (resource, .error error)

/-- A call that stores the values in every resource of the template and has the outcome there. -/
def Stores (template : Template) (call : Resource → Resource × Except WriteError Unit)
    (stores : List (Nat × Value)) (outcome : Except WriteError Unit) : Prop :=
  ∀ resource, resource.template = template → call resource = (storeAll resource stores, outcome)

variable {template : Template}

/-! ### One slot -/

theorem uniform_set (template : Template) (field : String) (value : Value) :
    Uniform template fun resource ↦ resource.set field value := by
  cases hfind : template.find? field with
  | none =>
    refine .inr ⟨.unknownField field, ?_⟩
    rintro resource rfl
    simp only [Resource.set, Resource.slotNamed, hfind]
  | some found =>
    refine .inl ⟨found.1, value, ?_⟩
    rintro resource rfl
    simp only [Resource.set, Resource.slotNamed, hfind]

theorem uniform_setTerminated (template : Template) (field text : String) :
    Uniform template fun resource ↦ resource.setTerminated field text := by
  cases hfind : template.find? field with
  | none =>
    refine .inr ⟨.unknownField field, ?_⟩
    rintro resource rfl
    simp only [Resource.setTerminated, Resource.slotNamed, hfind]
  | some found =>
    obtain ⟨index, label, type⟩ := found
    by_cases hnul : '\x00' ∈ text.toList
    · refine .inr ⟨.invalidLiteral field (Text.Quoted.bare text), ?_⟩
      rintro resource rfl
      simp only [Resource.setTerminated, Resource.slotNamed, hfind, if_pos hnul]
    · -- Without a byte count the hint of a type is the width of a fixed slot, and zero anywhere
      -- else.
      refine .inl ⟨index, .string text (type.lengthHint 0), ?_⟩
      rintro resource rfl
      simp only [Resource.setTerminated, Resource.set, Resource.slotNamed, hfind, if_neg hnul]
      cases type <;> rfl

theorem uniform_setLiteral (template : Template) (field : String) (token : Token) :
    Uniform template fun resource ↦ resource.setLiteral field token := by
  rcases means_or_fails template field token with ⟨index, value, hmeans⟩ | ⟨error, hfails⟩
  · refine .inl ⟨index, value, ?_⟩
    rintro resource rfl
    exact setLiteral_of_means hmeans
  · refine .inr ⟨error, ?_⟩
    rintro resource rfl
    exact setLiteral_of_fails hfails

theorem Uniform.exists_stores {call : Resource → Resource × Except WriteError Unit}
    (h : Uniform template call) : ∃ stores outcome, Stores template call stores outcome := by
  rcases h with ⟨index, value, hcall⟩ | ⟨error, hcall⟩
  · exact ⟨[(index, value)], .ok (), hcall⟩
  · exact ⟨[], .error error, hcall⟩

/-! ### Declared fields -/

theorem exists_stores_assignAll (template : Template) (assignments : List Assignment) :
    ∃ stores outcome, Stores template (fun resource ↦ resource.assignAll assignments) stores
      outcome := by
  induction assignments with
  | nil => exact ⟨[], .ok (), fun _ _ ↦ rfl⟩
  | cons assignment rest ih =>
    obtain ⟨slot, literal?⟩ := assignment
    cases literal? with
    | none => exact ⟨[], .error (.missingValue slot), fun _ _ ↦ rfl⟩
    | some literal =>
      rcases uniform_setLiteral template slot literal with ⟨index, value, hset⟩ | ⟨error, hset⟩
      · obtain ⟨stores, outcome, hrest⟩ := ih
        refine ⟨(index, value) :: stores, outcome, fun resource htemplate ↦ ?_⟩
        simp only [Resource.assignAll, hset resource htemplate]
        exact hrest (resource.setAt index value) htemplate
      · refine ⟨[], .error error, fun resource htemplate ↦ ?_⟩
        simp only [Resource.assignAll, hset resource htemplate]
        rfl

theorem exists_stores_setField (template : Template) (decl : TypeDecl) (name : Token)
    (literals : List Token) :
    ∃ stores outcome, Stores template (fun resource ↦ resource.setField decl name literals) stores
      outcome := by
  cases hfield : decl.fieldNamed name with
  | error error =>
    exact ⟨[], _, fun resource _ ↦ setField_of_unknown hfield resource literals⟩
  | ok field =>
    rcases Nat.lt_or_ge field.targets.length literals.length with hlt | hle
    · exact ⟨[], _, fun resource _ ↦ setField_of_lt hfield hlt resource⟩
    · simp only [setField_eq_assignAll hfield hle]
      exact exists_stores_assignAll template _

/-! ### Writes -/

/-- A write stores the same values in every resource of a template, and has the same outcome
there. -/
theorem exists_stores (template : Template) (write : Write) :
    ∃ stores outcome, ∀ resource, resource.template = template →
      perform resource write = (storeAll resource stores, outcome) := by
  cases write with
  | value field value => exact (uniform_set template field value).exists_stores
  | signed field width n => exact (uniform_set template field _).exists_stores
  | unsigned field width n => exact (uniform_set template field _).exists_stores
  | rect field rect => exact (uniform_set template field _).exists_stores
  | pascal field text => exact (uniform_set template field _).exists_stores
  | terminated field text => exact (uniform_setTerminated template field text).exists_stores
  | data field data => exact (uniform_set template field _).exists_stores
  | literal field token => exact (uniform_setLiteral template field token).exists_stores
  | declared decl name literals => exact exists_stores_setField template decl name literals

end ResourceLang.Proofs.WriteRuns
