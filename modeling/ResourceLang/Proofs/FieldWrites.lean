import ResourceLang.Proofs.TypedSlots

/-!
Writing a field, literal by literal. The slots of a field are gone through in order, each with the
literal in its place or with a default, up to the first that cannot be written; what was stored
before that one stays. So a write that fails leaves a whole number of slots behind, and which ones
they are can be read off the field.
-/

set_option autoImplicit false
set_option relaxedAutoImplicit false

namespace ResourceLang.Proofs.FieldWrites

open TypedSlots

/-- What a field asks for at a place among its slots: the name of the slot, and the literal in that
place or else the default of the entry that the slot belongs to, with the symbols of that entry
replaced. -/
def asked? (field : Field) (literals : List Token) (place : Nat) : Option Assignment :=
  field.targets[place]?.map fun target ↦
    ⟨target.1, (literals[place]?.or target.2.default?).map target.2.symbols.resolve⟩

/-- The slot of the name is at the index, and the literal has the value there. -/
def Means (template : Template) (slot : String) (literal : Token) (index : Nat) (value : Value) :
    Prop :=
  ∃ found, template.find? slot = some (index, found) ∧
    Literal.toValue found.type literal.lexeme = .ok value

/-- Why an assignment is not carried out: there is no literal for it, or no slot of its name, or the
literal has no value in the slot. -/
inductive Fails (template : Template) : Assignment → WriteError → Prop
  | missing (slot : String) : Fails template ⟨slot, none⟩ (.missingValue slot)
  | unknown {slot : String} {literal : Token} (hslot : template.find? slot = none) :
    Fails template ⟨slot, some literal⟩ (.unknownField slot)
  | refused {slot : String} {literal : Token} {index : Nat} {found : Slot} {fault : Literal.Fault}
      (hslot : template.find? slot = some (index, found))
      (hfault : Literal.toValue found.type literal.lexeme = .error fault) :
    Fails template ⟨slot, some literal⟩ (fault.toError slot found.type literal.lexeme)

/-- The assignments in the first places are carried out and nothing else is. Where several name one
slot it has the value of the last. -/
structure Stored (asked : Nat → Option Assignment) (count : Nat) (before after : Resource) :
    Prop where
  frame : after = { before with values := after.values }
  stored : ∀ place < count, ∃ slot literal index value, asked place = some ⟨slot, some literal⟩ ∧
    Means before.template slot literal index value ∧
      ((∀ later < count, place < later → ∀ other, asked later = some other → other.slot ≠ slot) →
        after.valueAt? index = some value)
  kept : ∀ index, (∀ place < count, ∀ assignment, asked place = some assignment →
    before.template.indexOf? assignment.slot ≠ some index) →
      after.valueAt? index = before.valueAt? index

variable {template : Template} {resource before after : Resource} {slot : String} {literal : Token}
  {index count : Nat} {value : Value} {asked : Nat → Option Assignment}

/-! ### One slot -/

theorem indexOf?_of_find? {found : Slot} (h : template.find? slot = some (index, found)) :
    template.indexOf? slot = some index ∧ found.name = slot := by
  unfold Template.find? at h
  obtain ⟨place, hplace, hpair⟩ := Option.bind_eq_some_iff.mp h
  obtain ⟨other, hother, hsame⟩ := Option.map_eq_some_iff.mp hpair
  obtain ⟨rfl, rfl⟩ := Prod.mk.inj hsame
  refine ⟨hplace, ?_⟩
  obtain ⟨hlt, hname, _⟩ := List.findIdx?_eq_some_iff_getElem.mp hplace
  obtain ⟨_, rfl⟩ := List.getElem?_eq_some_iff.mp hother
  simpa using hname

theorem eq_of_indexOf? {other : String} (h : template.indexOf? slot = some index)
    (hother : template.indexOf? other = some index) : slot = other := by
  obtain ⟨_, hslot, _⟩ := List.findIdx?_eq_some_iff_getElem.mp h
  obtain ⟨_, hname, _⟩ := List.findIdx?_eq_some_iff_getElem.mp hother
  rw [decide_eq_true_eq] at hslot hname
  exact hslot.symm.trans hname

theorem Means.indexOf? (h : Means template slot literal index value) :
    template.indexOf? slot = some index := by
  obtain ⟨found, hfound, _⟩ := h
  exact (indexOf?_of_find? hfound).1

theorem Means.unique {found : Value} (h : Means template slot literal index value)
    (hfound : Means template slot literal index found) : value = found := by
  obtain ⟨_, hslot, hvalue⟩ := h
  obtain ⟨_, hother, hresult⟩ := hfound
  obtain ⟨_, rfl⟩ := Prod.mk.inj (Option.some.inj (hslot.symm.trans hother))
  exact Except.ok.inj (hvalue.symm.trans hresult)

theorem Means.not_fails {error : WriteError} (h : Means template slot literal index value) :
    ¬ Fails template ⟨slot, some literal⟩ error := by
  obtain ⟨found, hslot, hvalue⟩ := h
  rintro (_ | hnone | ⟨hother, hfault⟩)
  · rw [hslot] at hnone
    cases hnone
  · obtain ⟨_, rfl⟩ := Prod.mk.inj (Option.some.inj (hslot.symm.trans hother))
    rw [hvalue] at hfault
    cases hfault

/-- A literal has a value in the slot of a name, or there is a reason why it cannot be written
there. -/
theorem means_or_fails (template : Template) (slot : String) (literal : Token) :
    (∃ index value, Means template slot literal index value) ∨
      ∃ error, Fails template ⟨slot, some literal⟩ error := by
  cases hfind : template.find? slot with
  | none => exact .inr ⟨_, .unknown hfind⟩
  | some pair =>
    obtain ⟨index, found⟩ := pair
    cases hvalue : Literal.toValue found.type literal.lexeme with
    | ok value => exact .inl ⟨index, value, found, hfind, hvalue⟩
    | error fault => exact .inr ⟨_, .refused hfind hvalue⟩

theorem setLiteral_of_means (h : Means resource.template slot literal index value) :
    resource.setLiteral slot literal = (resource.setAt index value, .ok ()) := by
  obtain ⟨found, hfind, hvalue⟩ := h
  exact setLiteral_of_toValue hfind hvalue

theorem setLiteral_of_fails {error : WriteError}
    (h : Fails resource.template ⟨slot, some literal⟩ error) :
    resource.setLiteral slot literal = (resource, .error error) := by
  cases h with
  | unknown hfind => exact setLiteral_of_find?_eq_none hfind
  | refused hfind hfault => exact setLiteral_of_fault hfind hfault

/-- A literal is stored as the value that it has in its slot, or refused for one of the reasons that
there are. -/
theorem setLiteral_cases (resource : Resource) (slot : String) (literal : Token) :
    (∃ index value, Means resource.template slot literal index value ∧
        resource.setLiteral slot literal = (resource.setAt index value, .ok ())) ∨
      ∃ error, Fails resource.template ⟨slot, some literal⟩ error ∧
        resource.setLiteral slot literal = (resource, .error error) := by
  rcases means_or_fails resource.template slot literal with ⟨index, value, hmeans⟩ | ⟨error, hfails⟩
  · exact .inl ⟨index, value, hmeans, setLiteral_of_means hmeans⟩
  · exact .inr ⟨error, hfails, setLiteral_of_fails hfails⟩

/-- Only the number of literals is reported as too great, never one of them. -/
theorem Fails.ne_tooManyValues {assignment : Assignment} {error : WriteError}
    (h : Fails template assignment error) (field : String) (expected found : Nat) :
    error ≠ .tooManyValues field expected found := by
  cases h with
  | missing slot => exact nofun
  | unknown _ => exact nofun
  | @refused _ _ _ _ fault _ _ => cases fault <;> exact nofun

/-! ### Slots in order -/

theorem Stored.zero (asked : Nat → Option Assignment) (resource : Resource) :
    Stored asked 0 resource resource :=
  ⟨rfl, nofun, fun _ _ ↦ rfl⟩

/-- An assignment is carried out in front of others, which find the same slots as without it. -/
theorem Stored.cons {rest : List Assignment}
    (hmeans : Means before.template slot literal index value)
    (h : Stored (fun place ↦ rest[place]?) count (before.setAt index value) after) :
    Stored (fun place ↦ (⟨slot, some literal⟩ :: rest)[place]?) (count + 1) before after where
  frame := h.frame
  stored place hplace := by
    cases place with
    | zero =>
      refine ⟨slot, literal, index, value, rfl, hmeans, fun hlast ↦ ?_⟩
      rw [h.kept index, valueAt?_setAt_self]
      intro later hlater assignment hassignment hindex
      have hother :=
        hlast (later + 1) (Nat.succ_lt_succ hlater) (Nat.succ_pos later) assignment hassignment
      exact hother (eq_of_indexOf? hindex hmeans.indexOf?)
    | succ place =>
      obtain ⟨other, token, place', result, hasked, hresult, hlast⟩ :=
        h.stored place (Nat.lt_of_succ_lt_succ hplace)
      refine ⟨other, token, place', result, hasked, hresult, fun hnone ↦ hlast ?_⟩
      intro later hlater hlt assignment hassignment
      exact hnone (later + 1) (Nat.succ_lt_succ hlater) (Nat.succ_lt_succ hlt) assignment
        hassignment
  kept other hother := by
    rw [h.kept other, valueAt?_setAt_of_ne]
    · rintro rfl
      exact hother 0 (Nat.succ_pos count) _ rfl hmeans.indexOf?
    · intro place hplace assignment hassignment
      exact hother (place + 1) (Nat.succ_lt_succ hplace) assignment hassignment

/-- A slot that some place names holds a value afterwards. -/
theorem Stored.exists_value (h : Stored asked count before after) {place : Nat}
    (hplace : place < count) {assignment : Assignment} (hasked : asked place = some assignment)
    (hindex : before.template.indexOf? assignment.slot = some index) :
    ∃ value, after.valueAt? index = some value := by
  -- The last place that names the slot decides, so the induction goes from the end of the places.
  induction hgap : count - place using Nat.strong_induction_on generalizing place assignment with
  | _ gap ih =>
    obtain ⟨slot, literal, found, value, hsame, hmeans, hlast⟩ := h.stored place hplace
    obtain rfl := Option.some.inj (hasked.symm.trans hsame)
    obtain rfl := Option.some.inj (hmeans.indexOf?.symm.trans hindex)
    by_cases hnone : ∀ later < count, place < later → ∀ other, asked later = some other →
      other.slot ≠ slot
    · exact ⟨value, hlast hnone⟩
    · push Not at hnone
      obtain ⟨later, hlater, hlt, other, hother, rfl⟩ := hnone
      exact ih (count - later) (by omega) hlater hother hindex rfl

/-- Assignments are carried out up to the first that fails, and the others before it are stored. -/
theorem assignAll_spec (resource : Resource) (assignments : List Assignment) :
    ∃ count after, Stored (fun place ↦ assignments[place]?) count resource after ∧
      (count = assignments.length ∧ resource.assignAll assignments = (after, .ok ()) ∨
        ∃ assignment error, assignments[count]? = some assignment ∧
          Fails resource.template assignment error ∧
            resource.assignAll assignments = (after, .error error)) := by
  induction assignments generalizing resource with
  | nil => exact ⟨0, resource, .zero _ resource, .inl ⟨rfl, rfl⟩⟩
  | cons assignment rest ih =>
    obtain ⟨slot, literal?⟩ := assignment
    cases literal? with
    | none =>
      exact ⟨0, resource, .zero _ resource, .inr ⟨⟨slot, none⟩, _, rfl, .missing slot, rfl⟩⟩
    | some literal =>
      rcases setLiteral_cases resource slot literal with
        ⟨index, value, hmeans, hset⟩ | ⟨error, hfails, hset⟩
      · have hstep : resource.assignAll (⟨slot, some literal⟩ :: rest) =
            (resource.setAt index value).assignAll rest := by
          simp only [Resource.assignAll, hset]
        obtain ⟨count, after, hstored, hend⟩ := ih (resource.setAt index value)
        refine ⟨count + 1, after, hstored.cons hmeans, ?_⟩
        rw [hstep]
        rcases hend with ⟨hcount, hdone⟩ | ⟨assignment, error, hassignment, hfails, hstopped⟩
        · exact .inl ⟨congrArg Nat.succ hcount, hdone⟩
        · exact .inr ⟨assignment, error, hassignment, hfails, hstopped⟩
      · have hstep : resource.assignAll (⟨slot, some literal⟩ :: rest) =
            (resource, .error error) := by
          simp only [Resource.assignAll, hset]
        exact ⟨0, resource, .zero _ resource,
          .inr ⟨⟨slot, some literal⟩, error, rfl, hfails, hstep⟩⟩

/-! ### Fields -/

theorem getElem?_assign (targets : List (String × FieldEntry)) (literals : List Token)
    (place : Nat) :
    (Field.assign targets literals)[place]? = targets[place]?.map fun target ↦
      ⟨target.1, (literals[place]?.or target.2.default?).map target.2.symbols.resolve⟩ := by
  induction targets generalizing literals place with
  | nil => rfl
  | cons target targets ih =>
    obtain ⟨slot, entry⟩ := target
    rw [Field.assign]
    cases place with
    | zero => rw [List.head?_eq_getElem?]; rfl
    | succ place => rw [List.getElem?_cons_succ, List.getElem?_cons_succ, ih, List.getElem?_tail]

theorem getElem?_assignments (field : Field) (literals : List Token) :
    (fun place ↦ (field.assignments literals)[place]?) = asked? field literals :=
  funext fun place ↦ getElem?_assign field.targets literals place

theorem length_assignments (field : Field) (literals : List Token) :
    (field.assignments literals).length = field.targets.length := by
  rw [Field.assignments]
  generalize field.targets = targets
  induction targets generalizing literals with
  | nil => rfl
  | cons target targets ih =>
    obtain ⟨slot, entry⟩ := target
    rw [Field.assign, List.length_cons, List.length_cons, ih]

variable {decl : TypeDecl} {name : Token} {literals : List Token} {field : Field}

theorem setField_of_unknown {error : DeclError} (h : decl.fieldNamed name = .error error)
    (resource : Resource) (literals : List Token) :
    resource.setField decl name literals = (resource, .error (.unknownField name.text)) := by
  rw [Resource.setField, h]

theorem setField_of_lt (h : decl.fieldNamed name = .ok field)
    (hlt : field.targets.length < literals.length) (resource : Resource) :
    resource.setField decl name literals =
      (resource, .error (.tooManyValues field.name field.targets.length literals.length)) := by
  rw [Resource.setField, h]
  exact if_pos hlt

theorem setField_eq_assignAll (h : decl.fieldNamed name = .ok field)
    (hle : literals.length ≤ field.targets.length) (resource : Resource) :
    resource.setField decl name literals = resource.assignAll (field.assignments literals) := by
  rw [Resource.setField, h]
  exact if_neg (Nat.not_lt.mpr hle)

/-- What is left of a write to a field that has slots enough. -/
theorem setField_of_le (h : decl.fieldNamed name = .ok field)
    (hle : literals.length ≤ field.targets.length) (resource : Resource) :
    ∃ count after, Stored (asked? field literals) count resource after ∧
      (count = field.targets.length ∧ resource.setField decl name literals = (after, .ok ()) ∨
        ∃ assignment error, asked? field literals count = some assignment ∧
          Fails resource.template assignment error ∧
            resource.setField decl name literals = (after, .error error)) := by
  obtain ⟨count, after, hstored, hend⟩ := assignAll_spec resource (field.assignments literals)
  rw [length_assignments] at hend
  rw [setField_eq_assignAll h hle, ← getElem?_assignments]
  exact ⟨count, after, hstored, hend⟩

/-- More literals than slots are reported exactly where they are given. -/
theorem exists_tooManyValues_iff (resource : Resource) (decl : TypeDecl) (name : Token)
    (literals : List Token) :
    (∃ field expected found,
      (resource.setField decl name literals).2 = .error (.tooManyValues field expected found)) ↔
      ∃ field, decl.fieldNamed name = .ok field ∧ field.targets.length < literals.length := by
  constructor
  · rintro ⟨called, expected, found, htooMany⟩
    cases h : decl.fieldNamed name with
    | error error =>
      rw [setField_of_unknown h] at htooMany
      cases htooMany
    | ok field =>
      refine ⟨field, rfl, Nat.lt_of_not_le fun hle ↦ ?_⟩
      obtain ⟨count, after, _, ⟨_, hdone⟩ | ⟨assignment, error, _, hfails, hstopped⟩⟩ :=
        setField_of_le h hle resource
      · rw [hdone] at htooMany
        cases htooMany
      · rw [hstopped] at htooMany
        exact hfails.ne_tooManyValues called expected found (Except.error.inj htooMany)
  · rintro ⟨field, h, hlt⟩
    exact ⟨_, _, _, by rw [setField_of_lt h hlt resource]⟩

/-- A field that is not declared, and more literals than a field has slots, leave a resource as it
is. Any other write carries out what the field asks for up to a place, the last one winning where a
slot is named again, and touches nothing else. It fails exactly if that place is one of the field,
for the reason that there is in it. -/
theorem setField_stored (resource : Resource) (decl : TypeDecl) (name : Token)
    (literals : List Token) :
    (∀ error, decl.fieldNamed name = .error error →
      resource.setField decl name literals = (resource, .error (.unknownField name.text))) ∧
    (∀ field expected found,
      (resource.setField decl name literals).2 = .error (.tooManyValues field expected found) →
        (resource.setField decl name literals).1 = resource) ∧
    ∀ field, decl.fieldNamed name = .ok field →
      (field.targets.length < literals.length → resource.setField decl name literals =
        (resource, .error (.tooManyValues field.name field.targets.length literals.length))) ∧
      (literals.length ≤ field.targets.length →
        ∃ count after, Stored (asked? field literals) count resource after ∧
          (count = field.targets.length ∧ resource.setField decl name literals = (after, .ok ()) ∨
            ∃ assignment error, asked? field literals count = some assignment ∧
              Fails resource.template assignment error ∧
                resource.setField decl name literals = (after, .error error))) := by
  refine ⟨fun error h ↦ setField_of_unknown h resource literals, ?_, ?_⟩
  · intro called expected found htooMany
    obtain ⟨field, h, hlt⟩ :=
      (exists_tooManyValues_iff resource decl name literals).mp ⟨called, expected, found, htooMany⟩
    rw [setField_of_lt h hlt resource]
  · intro field h
    exact ⟨fun hlt ↦ setField_of_lt h hlt resource, fun hle ↦ setField_of_le h hle resource⟩

/-- A field whose first entry fills two slots from a symbol, and whose last one names the first of
them again. -/
def site : Field where
  label := .synthetic .identifier "Site"
  entries :=
    [⟨.synthetic .identifier "Pos", .value, some (.synthetic .identifier "far"),
        [.synthetic .identifier "X", .synthetic .identifier "Y"],
        ⟨[⟨.synthetic .identifier "far", .synthetic .integer "0x7F"⟩], by decide⟩⟩,
      ⟨.synthetic .identifier "Mass", .value, none, [], .empty⟩,
      ⟨.synthetic .identifier "PosX", .value, some (.synthetic .integer "1"), [], .empty⟩]
  repeat? := none

def freight : TypeDecl where
  label := .synthetic .identifier "Freight"
  code := "FRGT"
  template :=
    ⟨[⟨.synthetic .identifier "Mass", .unsigned .word⟩,
      ⟨.synthetic .identifier "PosX", .signed .byte⟩,
      ⟨.synthetic .identifier "PosY", .signed .byte⟩], by decide⟩
  fields := [site]
  distinct := by decide

/-- The slots in front of the one without a literal are written. -/
example :
    let left := (Resource.ofDecl freight 128 "").setField freight (.synthetic .identifier "Site")
      [.synthetic .integer "5"]
    left.2 = .error (.missingValue "Mass") ∧ left.1.valueAt? 1 = some (.signed .byte 5) ∧
      left.1.valueAt? 2 = some (.signed .byte 127) ∧ left.1.valueAt? 0 = none := by
  refine ⟨rfl, rfl, rfl, rfl⟩

end ResourceLang.Proofs.FieldWrites
