import ResourceLang.Proofs.DeclarationRuns
import ResourceLang.Proofs.FieldSlots
import ResourceLang.Proofs.FilledDefaults

/-!
Defaults field by field. A field that is written without literals asks for the defaults of its
entries, in the order in which a filling comes to them. Where all entries have a default and no slot
is named twice, a filling of an unwritten resource finds every slot empty, and so does what writing
one field after another does, up to the first slot that cannot be written.
-/

set_option autoImplicit false
set_option relaxedAutoImplicit false

namespace ResourceLang.Proofs.DefaultsByField

open TypedSlots FieldWrites FieldSlots FilledDefaults DeclarationRuns

/-- Writes the fields of some names without literals, one after another, up to the first that
fails. -/
def setEach (resource : Resource) (decl : TypeDecl) : List Token → Resource × Except WriteError Unit
  | [] => (resource, .ok ())
  | name :: names =>
    match resource.setField decl name [] with
    | (written, .ok ()) => setEach written decl names
    | (left, .error error) => (left, .error error)

/-- The assignment of a default to its slot. -/
def assignmentOf (offer : String × Token) : Assignment := ⟨offer.1, some offer.2⟩

variable {resource written left : Resource} {slot : String} {literal : Token} {index : Nat}
  {value : Value} {error : WriteError} {decl : TypeDecl} {field : Field}

/-! ### Assignments in a row -/

theorem assignAll_append_of_ok {front : List Assignment}
    (h : resource.assignAll front = (written, .ok ())) (back : List Assignment) :
    resource.assignAll (front ++ back) = written.assignAll back := by
  induction front generalizing resource with
  | nil => rw [← (Prod.mk.inj h).1, List.nil_append]
  | cons assignment rest ih =>
    rw [List.cons_append, Resource.assignAll]
    rw [Resource.assignAll] at h
    split at h
    · cases h
    · split at h
      · exact ih h
      · cases h

theorem assignAll_append_of_error {front : List Assignment}
    (h : resource.assignAll front = (left, .error error)) (back : List Assignment) :
    resource.assignAll (front ++ back) = (left, .error error) := by
  induction front generalizing resource with
  | nil => cases h
  | cons assignment rest ih =>
    rw [List.cons_append, Resource.assignAll]
    rw [Resource.assignAll] at h
    split at h
    · exact h
    · split at h
      · exact ih h
      · exact h

/-! ### Fields without literals -/

theorem assign_nil (targets : List (String × FieldEntry)) :
    Field.assign targets [] = targets.map fun target ↦ ⟨target.1, target.2.defaultLiteral?⟩ := by
  induction targets with
  | nil => rfl
  | cons target targets ih =>
    rw [Field.assign, List.tail_nil, ih]
    rfl

/-- A field all of whose entries have a default asks for these, where no literals are given. -/
theorem assignments_nil (hdefaults : ∀ entry ∈ field.entries, entry.default?.isSome = true) :
    field.assignments [] = field.defaults.map assignmentOf := by
  rw [Field.assignments, assign_nil, Field.targets, Field.defaults, List.map_flatMap,
    List.map_flatMap]
  refine List.flatMap_congr fun entry hentry ↦ ?_
  obtain ⟨literal, hliteral⟩ := Option.isSome_iff_exists.mp (hdefaults entry hentry)
  simp [FieldEntry.defaultLiteral?, hliteral, assignmentOf]

theorem map_fst_defaults (hdefaults : ∀ entry ∈ field.entries, entry.default?.isSome = true) :
    field.defaults.map Prod.fst = slotNames field := by
  rw [Field.defaults, slotNames, List.map_flatMap]
  refine List.flatMap_congr fun entry hentry ↦ ?_
  obtain ⟨literal, hliteral⟩ := Option.isSome_iff_exists.mp (hdefaults entry hentry)
  simp [FieldEntry.defaultLiteral?, hliteral, Function.comp_def]

/-- Fields that are written one after another are assigned in one row. -/
theorem setEach_eq_assignAll {fields : List Field} {names : List Token}
    (hfields : fields ⊆ decl.fields) (hnames : names.map Token.text = fields.map Field.name)
    (resource : Resource) :
    setEach resource decl names =
      resource.assignAll (fields.flatMap fun field ↦ field.assignments []) := by
  induction fields generalizing names resource with
  | nil =>
    obtain rfl := List.map_eq_nil_iff.mp hnames
    rfl
  | cons field fields ih =>
    obtain ⟨name, names, rfl, hname, hrest⟩ := List.map_eq_cons_iff.mp hnames
    obtain ⟨hfield, hothers⟩ := List.cons_subset.mp hfields
    have hset : resource.setField decl name [] = resource.assignAll (field.assignments []) :=
      setField_eq_assignAll (fieldNamed_of_mem hfield hname) (Nat.zero_le _) resource
    rw [setEach, hset, List.flatMap_cons]
    rcases hresult : resource.assignAll (field.assignments []) with ⟨after, _ | _⟩
    · rw [assignAll_append_of_error hresult]
    · rw [assignAll_append_of_ok hresult]
      exact ih hothers hrest after

/-! ### Defaults for distinct slots -/

theorem not_isSet_setAt {name : String} (h : ¬ resource.isSet name = true) (hne : name ≠ slot)
    (hindex : resource.template.indexOf? slot = some index) (value : Value) :
    ¬ (resource.setAt index value).isSet name = true := by
  intro hset
  obtain ⟨place, held, hplace, hheld⟩ := isSet_iff.mp hset
  rw [valueAt?_setAt] at hheld
  split_ifs at hheld with hsame
  · exact hne (eq_of_indexOf? hplace (hsame ▸ hindex))
  · exact h (isSet_iff.mpr ⟨place, held, hplace, hheld⟩)

/-- Where no slot is named twice and all are empty, none is passed over. -/
theorem fillAll_eq_assignAll {offers : List (String × Token)}
    (hdistinct : (offers.map Prod.fst).Nodup)
    (hempty : ∀ offer ∈ offers, ¬ resource.isSet offer.1 = true) (count : Nat) :
    (resource.fillAll count offers).1 = (resource.assignAll (offers.map assignmentOf)).1 ∧
      (resource.fillAll count offers).2.map (fun _ ↦ ()) =
        (resource.assignAll (offers.map assignmentOf)).2 := by
  induction offers generalizing resource count with
  | nil => exact ⟨rfl, rfl⟩
  | cons offer rest ih =>
    obtain ⟨slot, literal⟩ := offer
    obtain ⟨hslot, hrest⟩ := List.nodup_cons.mp hdistinct
    obtain ⟨hunset, hothers⟩ := List.forall_mem_cons.mp hempty
    rw [List.map_cons, assignmentOf, Resource.assignAll]
    rcases means_or_fails resource.template slot literal with
      ⟨index, value, hmeans⟩ | ⟨error, hfails⟩
    · rw [fillAll_of_means hunset hmeans]
      simp only [setLiteral_of_means hmeans]
      refine ih hrest (fun offer hoffer ↦ ?_) (count + 1)
      refine not_isSet_setAt (hothers offer hoffer) ?_ hmeans.indexOf? value
      intro hname
      exact hslot (List.mem_map.mpr ⟨offer, hoffer, hname⟩)
    · rw [fillAll_of_fails hunset hfails]
      simp only [setLiteral_of_fails hfails]
      exact ⟨trivial, rfl⟩

/-- Where every entry of a declaration has a default and no slot is named twice, filling an
unwritten resource leaves what writing the fields by their names without literals leaves, in the
order of the declaration and up to the first that fails, and succeeds or fails like it. -/
theorem fillDefaults_eq_setEach (resource : Resource) (decl : TypeDecl) (names : List Token)
    (hnames : names.map Token.text = decl.fields.map Field.name)
    (hdefaults : ∀ field ∈ decl.fields, ∀ entry ∈ field.entries, entry.default?.isSome = true)
    (hdistinct : (decl.fields.flatMap slotNames).Nodup)
    (hempty : ∀ slot, resource.isSet slot = false) :
    (resource.fillDefaults decl).1 = (setEach resource decl names).1 ∧
      (resource.fillDefaults decl).2.map (fun _ ↦ ()) = (setEach resource decl names).2 := by
  have hoffers : (decl.fields.flatMap Field.defaults).map Prod.fst =
      decl.fields.flatMap slotNames := by
    rw [List.map_flatMap]
    exact List.flatMap_congr fun field hfield ↦ map_fst_defaults (hdefaults field hfield)
  have hassignments : (decl.fields.flatMap fun field ↦ field.assignments []) =
      (decl.fields.flatMap Field.defaults).map assignmentOf := by
    rw [List.map_flatMap]
    exact List.flatMap_congr fun field hfield ↦ assignments_nil (hdefaults field hfield)
  rw [setEach_eq_assignAll (List.Subset.refl _) hnames, hassignments]
  exact fillAll_eq_assignAll (hoffers ▸ hdistinct) (fun offer _ ↦ by simp [hempty]) 0

/-- Two fields that name three slots, with a default for each; the last one does not fit its
slot. -/
def convoy : TypeDecl where
  label := .synthetic .identifier "Convoy"
  code := "CNVY"
  template := freight.template
  fields :=
    [⟨.synthetic .identifier "Site",
        [⟨.synthetic .identifier "Pos", .value, some (.synthetic .identifier "away"),
          [.synthetic .identifier "X", .synthetic .identifier "Y"],
          ⟨[⟨.synthetic .identifier "away", .synthetic .integer "0x7F"⟩], by decide⟩⟩], none⟩,
      ⟨.synthetic .identifier "Load",
        [⟨.synthetic .identifier "Mass", .value, some (.synthetic .integer "70000"), [], .empty⟩],
          none⟩]
  distinct := by decide

/-- The slots of the first field are written either way, and the second field is refused. -/
theorem fillDefaults_eq_setEach_convoy :
    ∃ left, setEach (.ofDecl convoy 128 "") convoy
        [.synthetic .identifier "Site", .synthetic .identifier "Load"] =
          (left, .error (.valueOutOfRange "Mass" "70000")) ∧
      (left.valueAt? 0 = none ∧ left.valueAt? 1 = some (.signed .byte 127) ∧
        left.valueAt? 2 = some (.signed .byte 127)) ∧
      ((Resource.ofDecl convoy 128 "").fillDefaults convoy).1 = left ∧
        ((Resource.ofDecl convoy 128 "").fillDefaults convoy).2.map (fun _ ↦ ()) =
          .error (.valueOutOfRange "Mass" "70000") := by
  have hempty (slot : String) : (Resource.ofDecl convoy 128 "").isSet slot = false := by
    simp [Resource.isSet, Resource.value?, Resource.valueAt?, Resource.ofDecl, Resource.blank]
  exact ⟨_, rfl, ⟨rfl, rfl, rfl⟩, fillDefaults_eq_setEach (.ofDecl convoy 128 "") convoy
    [.synthetic .identifier "Site", .synthetic .identifier "Load"] (by decide) (by decide)
      (by decide) hempty⟩

end ResourceLang.Proofs.DefaultsByField
