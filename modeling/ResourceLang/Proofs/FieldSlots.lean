import ResourceLang.Proofs.FieldWrites

/-!
The slots of a field, as they are looked up and as they are written. Both go through the same names
in the same order, so a field can be written only if all its slots are found, and a write that
succeeds fills those and no others.
-/

set_option autoImplicit false
set_option relaxedAutoImplicit false

namespace ResourceLang.Proofs.FieldSlots

open TypedSlots FieldWrites

/-- The names of the slots that a field fills, entry by entry. -/
def slotNames (field : Field) : List String := field.entries.flatMap FieldEntry.slotNames

variable {decl : TypeDecl} {name : Token} {field : Field} {literals : List Token}
  {before after : Resource} {slot : String}

/-! ### Looking the slots up -/

theorem map_fst_targets (field : Field) : field.targets.map Prod.fst = slotNames field := by
  simp [Field.targets, slotNames, List.map_flatMap, Function.comp_def]

theorem length_slotNames (field : Field) : (slotNames field).length = field.targets.length := by
  rw [← map_fst_targets, List.length_map]

theorem slotIndex_of_eq_some {target : String × FieldEntry} {index : Nat}
    (h : decl.template.indexOf? target.1 = some index) : decl.slotIndex target = .ok index := by
  rw [TypeDecl.slotIndex, h]

theorem exists_slotIndex_of_eq_none {target : String × FieldEntry}
    (h : decl.template.indexOf? target.1 = none) :
    ∃ error, decl.slotIndex target = .error error := by
  rw [TypeDecl.slotIndex, h]
  exact ⟨_, rfl⟩

/-- Either all slots are found, each at the index of its name, or there is a name without a slot. -/
theorem mapM_slotIndex_cases (decl : TypeDecl) (targets : List (String × FieldEntry)) :
    (∃ indices, targets.mapM decl.slotIndex = .ok indices ∧
        (targets.map Prod.fst).map decl.template.indexOf? = indices.map some) ∨
      ∃ error, targets.mapM decl.slotIndex = .error error ∧
        ∃ slot ∈ targets.map Prod.fst, decl.template.indexOf? slot = none := by
  induction targets with
  | nil => exact .inl ⟨[], rfl, rfl⟩
  | cons target targets ih =>
    rw [List.mapM_cons]
    cases hindex : decl.template.indexOf? target.1 with
    | none =>
      obtain ⟨error, herror⟩ := exists_slotIndex_of_eq_none hindex
      exact .inr ⟨error, by rw [herror]; rfl, target.1, List.mem_cons_self, hindex⟩
    | some index =>
      rw [slotIndex_of_eq_some hindex]
      rcases ih with ⟨indices, hindices, hnames⟩ | ⟨error, herror, slot, hslot, hnone⟩
      · refine .inl ⟨index :: indices, by rw [hindices]; rfl, ?_⟩
        rw [List.map_cons, List.map_cons, List.map_cons, hindex, hnames]
      · exact .inr ⟨error, by rw [herror]; rfl, slot, List.mem_cons_of_mem _ hslot, hnone⟩

theorem slotsOf_cases (h : decl.fieldNamed name = .ok field) :
    (∃ indices, decl.slotsOf name = .ok indices ∧
        (slotNames field).map decl.template.indexOf? = indices.map some) ∨
      ∃ error, decl.slotsOf name = .error error ∧
        ∃ slot ∈ slotNames field, decl.template.indexOf? slot = none := by
  rw [TypeDecl.slotsOf, h, ← map_fst_targets]
  exact mapM_slotIndex_cases decl field.targets

/-- The slots of a field are not found exactly if there is no such field, or one of its names has no
slot. -/
theorem exists_slotsOf_error_iff :
    (∃ error, decl.slotsOf name = .error error) ↔
      (∃ error, decl.fieldNamed name = .error error) ∨
        ∃ field, decl.fieldNamed name = .ok field ∧
          ∃ slot ∈ slotNames field, decl.template.indexOf? slot = none := by
  cases hfield : decl.fieldNamed name with
  | error error =>
    have hslots : decl.slotsOf name = .error error := by rw [TypeDecl.slotsOf, hfield]
    exact iff_of_true ⟨error, hslots⟩ (.inl ⟨error, rfl⟩)
  | ok field =>
    rcases slotsOf_cases hfield with ⟨indices, hindices, hnames⟩ | ⟨error, herror, hmissing⟩
    · refine iff_of_false ?_ ?_
      · rintro ⟨error, herror⟩
        rw [hindices] at herror
        cases herror
      · rintro (⟨_, ⟨⟩⟩ | ⟨_, ⟨⟩, slot, hslot, hnone⟩)
        have hmem : none ∈ indices.map some := hnames ▸ List.mem_map.mpr ⟨slot, hslot, hnone⟩
        simp at hmem
    · exact iff_of_true ⟨error, herror⟩ (.inr ⟨field, rfl, hmissing⟩)

theorem length_of_slotsOf (h : decl.fieldNamed name = .ok field) {indices : List Nat}
    (hindices : decl.slotsOf name = .ok indices) : indices.length = (slotNames field).length := by
  rcases slotsOf_cases h with ⟨others, hothers, hnames⟩ | ⟨error, herror, _⟩
  · obtain rfl := Except.ok.inj (hindices.symm.trans hothers)
    simpa using (congrArg List.length hnames).symm
  · rw [herror] at hindices
    cases hindices

/-! ### Writing them -/

theorem exists_asked?_of_mem (literals : List Token) (h : slot ∈ slotNames field) :
    ∃ place < field.targets.length, ∃ literal?, asked? field literals place =
      some ⟨slot, literal?⟩ := by
  rw [← map_fst_targets] at h
  obtain ⟨⟨_, entry⟩, htarget, rfl⟩ := List.mem_map.mp h
  obtain ⟨place, hplace⟩ := List.mem_iff_getElem?.mp htarget
  exact ⟨place, (List.getElem?_eq_some_iff.mp hplace).1, _, by rw [asked?, hplace]; rfl⟩

theorem slot_mem_of_asked? {place : Nat} {assignment : Assignment}
    (h : asked? field literals place = some assignment) : assignment.slot ∈ slotNames field := by
  obtain ⟨target, htarget, rfl⟩ := Option.map_eq_some_iff.mp h
  rw [← map_fst_targets]
  exact List.mem_map_of_mem (List.mem_of_getElem? htarget)

/-- Where a field is written to its last place, each of its slots is found and has a value. -/
theorem exists_value_of_stored
    (h : Stored (asked? field literals) field.targets.length before after)
    (hslot : slot ∈ slotNames field) :
    ∃ index value, before.template.indexOf? slot = some index ∧
      after.valueAt? index = some value := by
  obtain ⟨place, hplace, literal?, hasked⟩ := exists_asked?_of_mem literals hslot
  obtain ⟨named, literal, index, _, hsame, hmeans, _⟩ := h.stored place hplace
  obtain rfl : slot = named := congrArg Assignment.slot (Option.some.inj (hasked.symm.trans hsame))
  obtain ⟨value, hvalue⟩ := h.exists_value hplace hasked hmeans.indexOf?
  exact ⟨index, value, hmeans.indexOf?, hvalue⟩

theorem valueAt?_of_stored {count index : Nat}
    (h : Stored (asked? field literals) count before after)
    (hindex : ∀ slot ∈ slotNames field, before.template.indexOf? slot ≠ some index) :
    after.valueAt? index = before.valueAt? index :=
  h.kept index fun _ _ _ hasked ↦ hindex _ (slot_mem_of_asked? hasked)

/-- A write that succeeds, to a resource of the declaration, has found the slots that are looked
up. -/
theorem exists_stored_of_setField_ok {resource : Resource}
    (h : resource.setField decl name literals = (after, .ok ())) :
    ∃ field, decl.fieldNamed name = .ok field ∧
      Stored (asked? field literals) field.targets.length resource after := by
  cases hfield : decl.fieldNamed name with
  | error error =>
    rw [setField_of_unknown hfield] at h
    cases h
  | ok field =>
    refine ⟨field, rfl, ?_⟩
    rcases Nat.lt_or_ge field.targets.length literals.length with hlt | hle
    · rw [setField_of_lt hfield hlt] at h
      cases h
    · obtain ⟨count, left, hstored, ⟨rfl, hdone⟩ | ⟨_, _, _, _, hstopped⟩⟩ :=
        setField_of_le hfield hle resource
      · obtain rfl := congrArg Prod.fst (h.symm.trans hdone)
        exact hstored
      · rw [hstopped] at h
        cases h

theorem slotsOf_of_setField_ok {resource : Resource} (htemplate : resource.template = decl.template)
    (h : resource.setField decl name literals = (after, .ok ())) :
    ∃ indices, decl.slotsOf name = .ok indices ∧
      (∀ index ∈ indices, ∃ value, after.valueAt? index = some value) ∧
        ∀ index, index ∉ indices → after.valueAt? index = resource.valueAt? index := by
  obtain ⟨field, hfield, hstored⟩ := exists_stored_of_setField_ok h
  have hwritten : ∀ slot ∈ slotNames field, ∃ index value,
      decl.template.indexOf? slot = some index ∧ after.valueAt? index = some value :=
    fun slot hslot ↦ htemplate ▸ exists_value_of_stored hstored hslot
  rcases slotsOf_cases hfield with ⟨indices, hindices, hnames⟩ | ⟨error, _, slot, hslot, hnone⟩
  · have hmem : ∀ index, index ∈ indices ↔
        ∃ slot ∈ slotNames field, decl.template.indexOf? slot = some index := by
      intro index
      rw [← List.mem_map, hnames, List.mem_map]
      simp
    refine ⟨indices, hindices, ?_, ?_⟩
    · intro index hindex
      obtain ⟨slot, hslot, hfound⟩ := (hmem index).mp hindex
      obtain ⟨other, value, hother, hvalue⟩ := hwritten slot hslot
      obtain rfl := Option.some.inj (hother.symm.trans hfound)
      exact ⟨value, hvalue⟩
    · intro index hindex
      refine valueAt?_of_stored hstored fun slot hslot hfound ↦ hindex ?_
      exact (hmem index).mpr ⟨slot, hslot, htemplate ▸ hfound⟩
  · obtain ⟨index, value, hfound, _⟩ := hwritten slot hslot
    rw [hnone] at hfound
    cases hfound

theorem exists_error_of_slotsOf {error : DeclError} {resource : Resource}
    (htemplate : resource.template = decl.template) (h : decl.slotsOf name = .error error)
    (literals : List Token) : ∃ error, (resource.setField decl name literals).2 = .error error := by
  cases hresult : resource.setField decl name literals with
  | mk after outcome =>
    cases outcome with
    | error error => exact ⟨error, rfl⟩
    | ok written =>
      obtain ⟨indices, hindices, _⟩ := slotsOf_of_setField_ok htemplate hresult
      rw [h] at hindices
      cases hindices

/-- A field that is written, in a resource of its declaration, has exactly the slots written that
are looked up for it; if one of them is not found, or the field is not, no literals can be written
to it. There are too many literals exactly where there are more than the field names slots, which
are as many as are looked up. -/
theorem slotsOf_of_setField (resource : Resource) (decl : TypeDecl)
    (htemplate : resource.template = decl.template) (name : Token) (literals : List Token) :
    (∀ after, resource.setField decl name literals = (after, .ok ()) →
      ∃ indices, decl.slotsOf name = .ok indices ∧
        (∀ index ∈ indices, ∃ value, after.valueAt? index = some value) ∧
          ∀ index, index ∉ indices → after.valueAt? index = resource.valueAt? index) ∧
    ((∃ error, decl.slotsOf name = .error error) ↔
      (∃ error, decl.fieldNamed name = .error error) ∨
        ∃ field, decl.fieldNamed name = .ok field ∧
          ∃ slot ∈ slotNames field, decl.template.indexOf? slot = none) ∧
    (∀ error, decl.slotsOf name = .error error →
      ∃ error, (resource.setField decl name literals).2 = .error error) ∧
    ((∃ field expected found,
        (resource.setField decl name literals).2 = .error (.tooManyValues field expected found)) ↔
      ∃ field, decl.fieldNamed name = .ok field ∧ (slotNames field).length < literals.length) ∧
    ∀ field indices, decl.fieldNamed name = .ok field → decl.slotsOf name = .ok indices →
      indices.length = (slotNames field).length := by
  refine ⟨?_, exists_slotsOf_error_iff, ?_, ?_, ?_⟩
  · exact fun after h ↦ slotsOf_of_setField_ok htemplate h
  · exact fun error h ↦ exists_error_of_slotsOf htemplate h literals
  · simp only [length_slotNames]
    exact exists_tooManyValues_iff resource decl name literals
  · exact fun field indices hfield hindices ↦ length_of_slotsOf hfield hindices

/-- Three literals, one of them a symbol, for four slots of which the last is the first again. -/
theorem slotsOf_of_setField_freight :
    (Resource.ofDecl freight 128 "").template = freight.template ∧
      ∃ after, (Resource.ofDecl freight 128 "").setField freight (.synthetic .identifier "Site")
          [.synthetic .integer "5", .synthetic .identifier "far", .synthetic .integer "7"] =
            (after, .ok ()) ∧
        freight.slotsOf (.synthetic .identifier "Site") = .ok [1, 2, 0, 1] ∧
          (∀ index ∈ [1, 2, 0, 1], ∃ value, after.valueAt? index = some value) ∧
            ∀ index, index ∉ [1, 2, 0, 1] → after.valueAt? index = none := by
  have hslots : freight.slotsOf (.synthetic .identifier "Site") = .ok [1, 2, 0, 1] := rfl
  refine ⟨rfl, _, rfl, hslots, ?_⟩
  obtain ⟨hwritten, _⟩ := slotsOf_of_setField (.ofDecl freight 128 "") freight rfl
    (.synthetic .identifier "Site")
    [.synthetic .integer "5", .synthetic .identifier "far", .synthetic .integer "7"]
  obtain ⟨indices, hindices, hfilled, hkept⟩ := hwritten _ rfl
  obtain rfl := Except.ok.inj (hslots.symm.trans hindices)
  refine ⟨hfilled, fun index hindex ↦ (hkept index hindex).trans ?_⟩
  simp [Resource.ofDecl, Resource.blank, Resource.valueAt?]

end ResourceLang.Proofs.FieldSlots
