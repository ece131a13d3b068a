import Mathlib.Data.List.Pairwise
import ResourceLang.Proofs.FieldSlots
import ResourceLang.Proofs.WriteRuns

/-!
Writes in another order. A write changes no slots but those that it names, and what it leaves in a
slot hangs on what was there before and on no other slot. So writes that name different slots can be
reordered at will: each comes to the outcome that it has alone, every slot ends with the same value,
and the bytes, which follow the template, are the same.
-/

set_option autoImplicit false
set_option relaxedAutoImplicit false

namespace ResourceLang.Proofs.ReorderedWrites

open SlotImage TemplateRoundTrip FieldWrites FieldSlots WriteRuns

open TypedSlots (valueAt?_setAt valueAt?_setAt_of_ne)

/-- The names of the slots that a write is for, whether it comes to write them all or not. A field
that is not declared has none. -/
def addressed : Write → List String
  | .value field _ => [field]
  | .signed field _ _ => [field]
  | .unsigned field _ _ => [field]
  | .rect field _ => [field]
  | .pascal field _ => [field]
  | .terminated field _ => [field]
  | .data field _ => [field]
  | .literal field _ => [field]
  | .declared decl name _ =>
    match decl.fieldNamed name with
    | .ok field => slotNames field
    | .error _ => []

/-- No slot is named by both writes. -/
def Apart (first second : Write) : Prop := ∀ slot ∈ addressed first, slot ∉ addressed second

instance : DecidableRel Apart := fun first second ↦
  inferInstanceAs (Decidable (∀ slot ∈ addressed first, slot ∉ addressed second))

/-- The slot at the index is one that the write names. -/
def Reaches (template : Template) (write : Write) (index : Nat) : Prop :=
  ∃ slot ∈ addressed write, template.indexOf? slot = some index

/-- A call is refused, or puts a value into the slot of a name. -/
def Lands (resource : Resource) (field : String) (result : Resource × Except WriteError Unit) :
    Prop :=
  (∃ error, result = (resource, .error error)) ∨
    ∃ index value, resource.template.indexOf? field = some index ∧
      result = (resource.setAt index value, .ok ())

/-- The bytes are those of one slot after another, each written from the value that the slot
holds. -/
def InOrder (values : SlotMap) (start : Nat) (slots : List Slot) (bs : List UInt8) : Prop :=
  ∃ pieces : List (List UInt8), pieces.length = slots.length ∧ bs = pieces.flatten ∧
    ∀ index slot piece, slots[index]? = some slot → pieces[index]? = some piece →
      ∃ value, values[start + index]? = some value ∧ Layout.encode slot.type value = .ok piece

variable {template : Template} {resource before after other : Resource} {field text : String}
  {index : Nat} {write first second : Write}

/-! ### What a write leaves alone -/

theorem lands_set (resource : Resource) (field : String) (value : Value) :
    Lands resource field (resource.set field value) := by
  unfold Resource.set Resource.slotNamed
  cases hfind : resource.template.find? field with
  | none => exact .inl ⟨_, rfl⟩
  | some found => exact .inr ⟨found.1, value, (indexOf?_of_find? hfind).1, rfl⟩

theorem lands_setTerminated (resource : Resource) (field text : String) :
    Lands resource field (resource.setTerminated field text) := by
  unfold Resource.setTerminated Resource.slotNamed
  cases hfind : resource.template.find? field with
  | none => exact .inl ⟨_, rfl⟩
  | some found =>
    by_cases hnul : '\x00' ∈ text.toList
    · simp only [if_pos hnul]
      exact .inl ⟨_, rfl⟩
    · simp only [if_neg hnul]
      exact lands_set resource field _

theorem lands_setLiteral (resource : Resource) (field : String) (token : Token) :
    Lands resource field (resource.setLiteral field token) := by
  rcases setLiteral_cases resource field token with ⟨index, value, hmeans, hset⟩ | ⟨error, _, hset⟩
  · exact .inr ⟨index, value, hmeans.indexOf?, hset⟩
  · exact .inl ⟨error, hset⟩

theorem Lands.valueAt?_eq {result : Resource × Except WriteError Unit}
    (h : Lands resource field result) (hindex : resource.template.indexOf? field ≠ some index) :
    result.1.valueAt? index = resource.valueAt? index := by
  rcases h with ⟨error, rfl⟩ | ⟨place, value, hplace, rfl⟩
  · rfl
  · refine valueAt?_setAt_of_ne ?_ resource value
    rintro rfl
    exact hindex hplace

theorem valueAt?_setField {decl : TypeDecl} {name : Token} {literals : List Token}
    (h : ∀ field, decl.fieldNamed name = .ok field → ∀ slot ∈ slotNames field,
      resource.template.indexOf? slot ≠ some index) :
    (resource.setField decl name literals).1.valueAt? index = resource.valueAt? index := by
  cases hfield : decl.fieldNamed name with
  | error error => rw [setField_of_unknown hfield]
  | ok field =>
    rcases Nat.lt_or_ge field.targets.length literals.length with hlt | hle
    · rw [setField_of_lt hfield hlt]
    · obtain ⟨count, left, hstored, ⟨_, hend⟩ | ⟨_, _, _, _, hend⟩⟩ :=
        setField_of_le hfield hle resource
      all_goals
        rw [hend]
        exact valueAt?_of_stored hstored (h field hfield)

/-- A slot that a write does not name keeps its value. -/
theorem valueAt?_perform_of_not_reaches (h : ¬ Reaches resource.template write index) :
    (perform resource write).1.valueAt? index = resource.valueAt? index := by
  have hsingle {field : String} (hfield : field ∈ addressed write) :
      resource.template.indexOf? field ≠ some index :=
    fun hindex ↦ h ⟨field, hfield, hindex⟩
  cases write
  case value field _ | signed field _ _ | unsigned field _ _ | rect field _ | pascal field _ |
      data field _ =>
    exact (lands_set resource field _).valueAt?_eq (hsingle List.mem_cons_self)
  case terminated field text =>
    exact (lands_setTerminated resource field text).valueAt?_eq (hsingle List.mem_cons_self)
  case literal field token =>
    exact (lands_setLiteral resource field token).valueAt?_eq (hsingle List.mem_cons_self)
  case declared decl name literals =>
    refine valueAt?_setField fun field hfield slot hslot ↦ hsingle ?_
    rw [addressed, hfield]
    exact hslot

/-! ### What a write hangs on -/

theorem storeAll_eq (resource : Resource) (stores : List (Nat × Value)) :
    storeAll resource stores = { resource with values := (storeAll resource stores).values } := by
  induction stores generalizing resource with
  | nil => rfl
  | cons store rest ih => exact ih (resource.setAt store.1 store.2)

theorem valueAt?_storeAll_congr (h : other.valueAt? index = resource.valueAt? index)
    (stores : List (Nat × Value)) :
    (storeAll other stores).valueAt? index = (storeAll resource stores).valueAt? index := by
  induction stores generalizing other resource with
  | nil => exact h
  | cons store rest ih =>
    refine ih ?_
    rw [valueAt?_setAt, valueAt?_setAt, h]

theorem perform_eq (resource : Resource) (write : Write) :
    (perform resource write).1 = { resource with values := (perform resource write).1.values } := by
  obtain ⟨stores, outcome, hstores⟩ := exists_stores resource.template write
  rw [hstores resource rfl]
  exact storeAll_eq resource stores

theorem template_perform (resource : Resource) (write : Write) :
    (perform resource write).1.template = resource.template := by
  rw [perform_eq resource write]

/-- What a write leaves in a slot hangs on the template and on what the slot held. -/
theorem valueAt?_perform_congr (htemplate : other.template = resource.template)
    (h : other.valueAt? index = resource.valueAt? index) (write : Write) :
    (perform other write).1.valueAt? index = (perform resource write).1.valueAt? index := by
  obtain ⟨stores, outcome, hstores⟩ := exists_stores resource.template write
  rw [hstores resource rfl, hstores other htemplate]
  exact valueAt?_storeAll_congr h stores

theorem outcome_perform_congr (htemplate : other.template = resource.template) (write : Write) :
    (perform other write).2 = (perform resource write).2 := by
  obtain ⟨stores, outcome, hstores⟩ := exists_stores resource.template write
  rw [hstores resource rfl, hstores other htemplate]

/-! ### Two writes -/

theorem Reaches.not_reaches_of_apart (h : Reaches template first index)
    (hapart : Apart first second) :
    ¬ Reaches template second index := by
  rintro ⟨slot, hslot, hindex⟩
  obtain ⟨named, hnamed, hfound⟩ := h
  obtain rfl := eq_of_indexOf? hfound hindex
  exact hapart named hnamed hslot

theorem eq_of_valueAt? (hbefore : before = { resource with values := before.values })
    (hafter : after = { resource with values := after.values })
    (h : ∀ index, before.valueAt? index = after.valueAt? index) : before = after := by
  rw [hbefore, hafter, Std.ExtTreeMap.ext_getElem? h]

/-- A slot that the second write does not name holds what the first leaves there. -/
theorem valueAt?_of_not_reaches_second (h : ¬ Reaches resource.template second index) :
    (perform (perform resource first).1 second).1.valueAt? index =
      (perform resource first).1.valueAt? index := by
  refine valueAt?_perform_of_not_reaches ?_
  rwa [template_perform]

/-- A slot that the first write does not name holds what the second leaves there alone. -/
theorem valueAt?_of_not_reaches_first (h : ¬ Reaches resource.template first index) :
    (perform (perform resource first).1 second).1.valueAt? index =
      (perform resource second).1.valueAt? index :=
  valueAt?_perform_congr (template_perform resource first) (valueAt?_perform_of_not_reaches h)
    second

/-- Writes that name different slots can change places. -/
theorem perform_comm (h : Apart first second) (resource : Resource) :
    (perform (perform resource first).1 second).1 =
      (perform (perform resource second).1 first).1 := by
  refine @eq_of_valueAt? resource _ _ ?_ ?_ fun index ↦ ?_
  · rw [perform_eq, perform_eq resource]
  · rw [perform_eq, perform_eq resource]
  · by_cases hfirst : Reaches resource.template first index
    · have hsecond := hfirst.not_reaches_of_apart h
      rw [valueAt?_of_not_reaches_second hsecond, valueAt?_of_not_reaches_first hsecond]
    · rw [valueAt?_of_not_reaches_first hfirst, valueAt?_of_not_reaches_second hfirst]

/-! ### Runs -/

theorem outcomes_eq_map (resource : Resource) (writes : List Write) :
    outcomes resource writes = writes.map fun write ↦ (perform resource write).2 := by
  induction writes generalizing resource with
  | nil => rfl
  | cons write rest ih =>
    rw [outcomes, List.map_cons, ih]
    simp only [outcome_perform_congr (template_perform resource write)]

theorem template_run (resource : Resource) (writes : List Write) :
    (run resource writes).template = resource.template := by
  induction writes generalizing resource with
  | nil => rfl
  | cons write rest ih => exact (ih _).trans (template_perform resource write)

theorem valueAt?_run_of_not_reaches {writes : List Write}
    (h : ∀ write ∈ writes, ¬ Reaches resource.template write index) :
    (run resource writes).valueAt? index = resource.valueAt? index := by
  induction writes generalizing resource with
  | nil => rfl
  | cons write rest ih =>
    obtain ⟨hwrite, hrest⟩ := List.forall_mem_cons.mp h
    rw [run, List.foldl_cons, ← run, ih (by rwa [template_perform]),
      valueAt?_perform_of_not_reaches hwrite]

theorem Apart.symm (h : Apart first second) : Apart second first :=
  fun slot hsecond hfirst ↦ h slot hfirst hsecond

instance : Std.Symm Apart := ⟨fun _ _ ↦ Apart.symm⟩

theorem run_eq_of_perm {writes others : List Write} (hapart : writes.Pairwise Apart)
    (hperm : writes.Perm others) (resource : Resource) :
    run resource others = run resource writes := by
  refine (hperm.foldl_eq' ?_ resource).symm
  intro first hfirst second hsecond resource
  by_cases hsame : first = second
  · rw [hsame]
  · exact perform_comm (hapart.forall hfirst hsecond hsame) resource

/-- Where no other write names a slot of it, a write leaves there what it leaves there alone. -/
theorem valueAt?_run_of_reaches {writes : List Write} (hapart : writes.Pairwise Apart)
    (hwrite : write ∈ writes) (h : Reaches resource.template write index) :
    (run resource writes).valueAt? index = (perform resource write).1.valueAt? index := by
  -- The write is moved to the front, and the writes behind it leave its slots alone.
  obtain ⟨front, back, rfl⟩ := List.append_of_mem hwrite
  have hperm : (front ++ write :: back).Perm (write :: (front ++ back)) := List.perm_middle
  obtain ⟨hothers, _⟩ := List.pairwise_cons.mp (hperm.pairwise hapart Apart.symm)
  rw [← run_eq_of_perm hapart hperm resource, run, List.foldl_cons, ← run]
  refine valueAt?_run_of_not_reaches fun second hsecond ↦ ?_
  rw [template_perform]
  exact h.not_reaches_of_apart (hothers second hsecond)

/-! ### Bytes -/

theorem inOrder_of_encodeFrom {values : SlotMap} {start : Nat} {slots : List Slot} {bs : List UInt8}
    (h : Template.encodeFrom values start slots = .ok bs) : InOrder values start slots bs := by
  induction slots generalizing start bs with
  | nil =>
    obtain rfl : [] = bs := Except.ok.inj h
    exact ⟨[], rfl, rfl, by simp⟩
  | cons slot slots ih =>
    obtain ⟨value, front, tail, hvalue, hfront, htail, rfl⟩ := encodeFrom_cons_eq_ok_iff.mp h
    obtain ⟨pieces, hlength, rfl, hpieces⟩ := ih htail
    refine ⟨front :: pieces, congrArg Nat.succ hlength, rfl,
      fun index other piece hother hpiece ↦ ?_⟩
    cases index with
    | zero =>
      obtain rfl := Option.some.inj hother
      obtain rfl := Option.some.inj hpiece
      exact ⟨value, hvalue, encode_of_image hfront⟩
    | succ index =>
      have hshift : start + (index + 1) = start + 1 + index := by omega
      rw [hshift]
      exact hpieces index other piece hother hpiece

/-- Writes that name different slots come to the same in every order. Each has the outcome that it
has alone and leaves in its slots what it leaves there alone, all slots end with the same values,
and the bytes of the resource, or the error that there is instead of them, are the same; the bytes
of the slots stand in the order of the template. -/
theorem run_perm (resource : Resource) {writes others : List Write} (hapart : writes.Pairwise Apart)
    (hperm : writes.Perm others) :
    outcomes resource writes = writes.map (fun write ↦ (perform resource write).2) ∧
    outcomes resource others = others.map (fun write ↦ (perform resource write).2) ∧
    (∀ write ∈ others, ∀ index, Reaches resource.template write index →
      (run resource others).valueAt? index = (perform resource write).1.valueAt? index) ∧
    (∀ index, (run resource others).valueAt? index = (run resource writes).valueAt? index) ∧
    (run resource others).toBytes = (run resource writes).toBytes ∧
    ∀ bs, (run resource others).toBytes = .ok bs →
      InOrder (run resource others).values 0 resource.template.slots bs := by
  have hrun := run_eq_of_perm hapart hperm resource
  refine ⟨outcomes_eq_map resource writes, outcomes_eq_map resource others, ?_, ?_, ?_, ?_⟩
  · exact fun write hwrite index hreaches ↦
      valueAt?_run_of_reaches (hperm.pairwise hapart Apart.symm) hwrite hreaches
  · exact fun index ↦ congrArg (Resource.valueAt? · index) hrun
  · rw [hrun]
  · intro bs hbs
    rw [← template_run resource others]
    exact inOrder_of_encodeFrom hbs

/-- The slots of a site, and a note and a seal behind them. -/
def parcel : Template where
  slots := [⟨.synthetic .identifier "PosX", .signed .byte⟩,
    ⟨.synthetic .identifier "PosY", .signed .byte⟩,
    ⟨.synthetic .identifier "Mass", .unsigned .word⟩, ⟨.synthetic .identifier "Note", .terminated⟩,
    ⟨.synthetic .identifier "Seal", .hexData⟩]
  distinct := by decide

/-- A field that names one of its slots twice, a name without a slot, and the two slots that are
left. -/
def packing : List Write :=
  [.declared freight (.synthetic .identifier "Site")
      [.synthetic .integer "5", .synthetic .identifier "far", .synthetic .integer "300"],
    .pascal "Label" "ore", .terminated "Note" "é", .data "Seal" [7]]

/-- From the last write to the first the parcel is packed as from the first to the last. -/
theorem run_perm_packing :
    packing.Pairwise Apart ∧ packing.Perm packing.reverse ∧
      outcomes (.blank parcel "PRCL" 128 "") packing.reverse =
        [.ok (), .ok (), .error (.unknownField "Label"), .ok ()] ∧
      (run (.blank parcel "PRCL" 128 "") packing.reverse).toBytes =
        (run (.blank parcel "PRCL" 128 "") packing).toBytes ∧
      InOrder (run (.blank parcel "PRCL" 128 "") packing.reverse).values 0 parcel.slots
        [1, 0x7F, 0x01, 0x2C, 0xC3, 0xA9, 0, 1, 7] := by
  have hapart : packing.Pairwise Apart := by decide
  have hperm : packing.Perm packing.reverse := (List.reverse_perm packing).symm
  obtain ⟨_, houtcomes, _, _, hbytes, hinOrder⟩ :=
    run_perm (.blank parcel "PRCL" 128 "") hapart hperm
  exact ⟨hapart, hperm, houtcomes, hbytes, hinOrder _ (hbytes.trans rfl)⟩

end ResourceLang.Proofs.ReorderedWrites
