import Mathlib.Data.Finset.Card
import ResourceLang.Proofs.FieldWrites

/-!
Filling the gaps of a resource from the defaults of a declaration. The defaults are gone through in
the order of the declaration, and one is written only where its slot has no value yet. So a slot
that was empty takes the first default that is declared for it, whatever comes later, and a slot
that had a value keeps it. What a filling that succeeds leaves is told by the values before it and
the declaration alone: `Filled` holds of one resource and one count at most.
-/

set_option autoImplicit false
set_option relaxedAutoImplicit false

namespace ResourceLang.Proofs.FilledDefaults

open TypedSlots FieldWrites

/-- The default of the first entry that has one and fills the slot, with the symbols of the entry
replaced. -/
def offered? (decl : TypeDecl) (slot : String) : Option Token :=
  (decl.fields.flatMap Field.entries).findSome? fun entry ↦
    if slot ∈ entry.slotNames then entry.defaultLiteral? else none

/-- The gaps of a resource are filled with what is offered for their slots, and nothing else is
changed. No slot that something is offered for is left empty, and the count is that of the gaps
filled. -/
structure Filled (offer : String → Option Token) (before after : Resource) (count : Nat) :
    Prop where
  frame : after = { before with values := after.values }
  kept : ∀ index value, before.valueAt? index = some value → after.valueAt? index = some value
  filled : ∀ index, before.valueAt? index = none → ∀ value, after.valueAt? index = some value ↔
    ∃ slot literal, offer slot = some literal ∧ Means before.template slot literal index value
  isSet : ∀ slot literal, offer slot = some literal → after.isSet slot = true
  counted : ∃ indices : Finset Nat, indices.card = count ∧ ∀ index, index ∈ indices ↔
    before.valueAt? index = none ∧ ∃ value, after.valueAt? index = some value

/-- A gap is offered what cannot be written there, and no value is lost. -/
structure Stopped (offer : String → Option Token) (before after : Resource) (error : WriteError) :
    Prop where
  kept : ∀ index value, before.valueAt? index = some value → after.valueAt? index = some value
  refused : ∃ slot literal, offer slot = some literal ∧ (¬ before.isSet slot = true) ∧
    Fails before.template ⟨slot, some literal⟩ error

variable {resource before after other : Resource} {slot : String} {literal : Token}
  {index count total : Nat} {value : Value} {error : WriteError} {offer : String → Option Token}
  {offers : List (String × Token)} {decl : TypeDecl}

/-! ### Slots by name -/

theorem isSet_iff : resource.isSet slot = true ↔
    ∃ index value, resource.template.indexOf? slot = some index ∧
      resource.valueAt? index = some value := by
  rw [Resource.isSet, Resource.value?, Option.isSome_iff_exists]
  simp only [Option.bind_eq_some_iff]
  exact exists_comm

theorem valueAt?_of_not_isSet (h : ¬ resource.isSet slot = true)
    (hindex : resource.template.indexOf? slot = some index) : resource.valueAt? index = none := by
  by_contra hvalue
  obtain ⟨value, hvalue⟩ := Option.ne_none_iff_exists'.mp hvalue
  exact h (isSet_iff.mpr ⟨index, value, hindex, hvalue⟩)

theorem isSet_of_kept (htemplate : after.template = before.template)
    (hkept : ∀ index value, before.valueAt? index = some value → after.valueAt? index = some value)
    (h : before.isSet slot = true) : after.isSet slot = true := by
  obtain ⟨index, value, hindex, hvalue⟩ := isSet_iff.mp h
  exact isSet_iff.mpr ⟨index, value, htemplate ▸ hindex, hkept index value hvalue⟩

theorem isSet_setAt_self (h : resource.template.indexOf? slot = some index) (value : Value) :
    (resource.setAt index value).isSet slot = true :=
  isSet_iff.mpr ⟨index, value, h, valueAt?_setAt_self resource index value⟩

theorem lookup_cons_of_ne {name : String} (h : name ≠ slot) :
    ((slot, literal) :: offers).lookup name = offers.lookup name := by
  rw [List.lookup_cons, beq_false_of_ne h]

/-- An offer for a slot at another index has no say in what is offered at this one. -/
theorem exists_means_cons_iff {template : Template} (h : template.indexOf? slot ≠ some index)
    (literal : Token) (offers : List (String × Token)) (value : Value) :
    (∃ name token, ((slot, literal) :: offers).lookup name = some token ∧
      Means template name token index value) ↔
      ∃ name token, offers.lookup name = some token ∧ Means template name token index value := by
  have hne {name : String} {token : Token} (hmeans : Means template name token index value) :
      name ≠ slot := by
    rintro rfl
    exact h hmeans.indexOf?
  constructor
  · rintro ⟨name, token, hoffer, hmeans⟩
    exact ⟨name, token, (lookup_cons_of_ne (hne hmeans)).symm.trans hoffer, hmeans⟩
  · rintro ⟨name, token, hoffer, hmeans⟩
    exact ⟨name, token, (lookup_cons_of_ne (hne hmeans)).trans hoffer, hmeans⟩

/-- What is written into a gap leaves all other values. -/
theorem valueAt?_setAt_of_gap {place : Nat} {held : Value} (hgap : resource.valueAt? index = none)
    (value : Value) (hheld : resource.valueAt? place = some held) :
    (resource.setAt index value).valueAt? place = some held := by
  rw [valueAt?_setAt_of_ne, hheld]
  rintro rfl
  rw [hgap] at hheld
  cases hheld

/-! ### Filling slot by slot -/

theorem Filled.template_eq (h : Filled offer before after count) :
    after.template = before.template := by
  rw [h.frame]

theorem Filled.nil (resource : Resource) : Filled (fun _ ↦ none) resource resource 0 where
  frame := rfl
  kept _ _ hvalue := hvalue
  filled index hnone value := by simp [hnone]
  isSet _ _ hoffer := by cases hoffer
  counted := ⟨∅, rfl, fun index ↦ by simp +contextual⟩

/-- An offer for a slot that has a value changes nothing. -/
theorem Filled.skip (hset : before.isSet slot = true)
    (h : Filled (fun name ↦ offers.lookup name) before after count) (literal : Token) :
    Filled (fun name ↦ ((slot, literal) :: offers).lookup name) before after count where
  frame := h.frame
  kept := h.kept
  filled index hnone value := by
    rw [exists_means_cons_iff, h.filled index hnone value]
    intro hindex
    obtain ⟨held, found, hheld, hfound⟩ := isSet_iff.mp hset
    obtain rfl := Option.some.inj (hheld.symm.trans hindex)
    rw [hnone] at hfound
    cases hfound
  isSet name token hoffer := by
    by_cases hname : name = slot
    · rw [hname]
      exact isSet_of_kept h.template_eq h.kept hset
    · exact h.isSet name token ((lookup_cons_of_ne hname).symm.trans hoffer)
  counted := h.counted

/-- An offer for an empty slot is written there, and later ones for the slot find it written. -/
theorem Filled.cons (hunset : ¬ before.isSet slot = true)
    (hmeans : Means before.template slot literal index value)
    (h : Filled (fun name ↦ offers.lookup name) (before.setAt index value) after count) :
    Filled (fun name ↦ ((slot, literal) :: offers).lookup name) before after (count + 1) := by
  have hgap : before.valueAt? index = none := valueAt?_of_not_isSet hunset hmeans.indexOf?
  have hwritten : after.valueAt? index = some value :=
    h.kept index value (valueAt?_setAt_self before index value)
  have helsewhere {place : Nat} (hplace : place ≠ index) :
      (before.setAt index value).valueAt? place = before.valueAt? place :=
    valueAt?_setAt_of_ne hplace.symm before value
  refine ⟨h.frame, ?_, ?_, ?_, ?_⟩
  · exact fun place held hheld ↦ h.kept place held (valueAt?_setAt_of_gap hgap value hheld)
  · intro place hnone found
    by_cases hplace : place = index
    · subst hplace
      rw [hwritten, Option.some.injEq]
      constructor
      · rintro rfl
        exact ⟨slot, literal, List.lookup_cons_self, hmeans⟩
      · rintro ⟨name, token, hoffer, hfound⟩
        obtain rfl := eq_of_indexOf? hfound.indexOf? hmeans.indexOf?
        obtain rfl := Option.some.inj (List.lookup_cons_self.symm.trans hoffer)
        exact hmeans.unique hfound
    · rw [exists_means_cons_iff, h.filled place ((helsewhere hplace).trans hnone) found]
      · rfl
      · exact fun hindex ↦ hplace (Option.some.inj (hindex.symm.trans hmeans.indexOf?))
  · intro name token hoffer
    by_cases hname : name = slot
    · rw [hname]
      exact isSet_of_kept h.template_eq h.kept (isSet_setAt_self hmeans.indexOf? value)
    · exact h.isSet name token ((lookup_cons_of_ne hname).symm.trans hoffer)
  · obtain ⟨indices, hcard, hindices⟩ := h.counted
    have hnew : index ∉ indices := fun hmem ↦ by
      have hnone := ((hindices index).mp hmem).1
      rw [valueAt?_setAt_self] at hnone
      cases hnone
    refine ⟨insert index indices, by rw [Finset.card_insert_of_notMem hnew, hcard], fun place ↦ ?_⟩
    rw [Finset.mem_insert, hindices]
    by_cases hplace : place = index
    · simp [hplace, hgap, hwritten]
    · simp [hplace, helsewhere hplace]

theorem Stopped.skip (hset : before.isSet slot = true)
    (h : Stopped (fun name ↦ offers.lookup name) before after error) (literal : Token) :
    Stopped (fun name ↦ ((slot, literal) :: offers).lookup name) before after error where
  kept := h.kept
  refused := by
    obtain ⟨name, token, hoffer, hunset, hfails⟩ := h.refused
    have hname : name ≠ slot := by
      rintro rfl
      exact hunset hset
    exact ⟨name, token, (lookup_cons_of_ne hname).trans hoffer, hunset, hfails⟩

/-- What stops a filling further on stops it from the start, since a slot that is still empty then
was so before. -/
theorem Stopped.cons (hunset : ¬ before.isSet slot = true)
    (hmeans : Means before.template slot literal index value)
    (h : Stopped (fun name ↦ offers.lookup name) (before.setAt index value) after error) :
    Stopped (fun name ↦ ((slot, literal) :: offers).lookup name) before after error := by
  have hgap : before.valueAt? index = none := valueAt?_of_not_isSet hunset hmeans.indexOf?
  have hheld (place : Nat) (held : Value) (hplace : before.valueAt? place = some held) :
      (before.setAt index value).valueAt? place = some held :=
        valueAt?_setAt_of_gap hgap value hplace
  have hset {name : String} : before.isSet name = true →
      (before.setAt index value).isSet name = true :=
    isSet_of_kept rfl hheld
  obtain ⟨hkept, name, token, hoffer, hempty, hfails⟩ :=
    h.skip (isSet_setAt_self hmeans.indexOf? value) literal
  exact ⟨fun place held hplace ↦ hkept place held (hheld place held hplace), name, token, hoffer,
    hempty ∘ hset,
    hfails⟩

theorem fillAll_of_isSet (h : resource.isSet slot = true) (count : Nat) (literal : Token)
    (offers : List (String × Token)) :
    resource.fillAll count ((slot, literal) :: offers) = resource.fillAll count offers := by
  rw [Resource.fillAll, if_pos h]

theorem fillAll_of_means (hunset : ¬ resource.isSet slot = true)
    (hmeans : Means resource.template slot literal index value) (count : Nat)
    (offers : List (String × Token)) :
    resource.fillAll count ((slot, literal) :: offers) =
      (resource.setAt index value).fillAll (count + 1) offers := by
  rw [Resource.fillAll, if_neg hunset]
  simp only [setLiteral_of_means hmeans]

theorem fillAll_of_fails (hunset : ¬ resource.isSet slot = true)
    (hfails : Fails resource.template ⟨slot, some literal⟩ error) (count : Nat)
    (offers : List (String × Token)) :
    resource.fillAll count ((slot, literal) :: offers) = (resource, .error error) := by
  rw [Resource.fillAll, if_neg hunset]
  simp only [setLiteral_of_fails hfails]

/-- The gaps are filled, or one of them has an offer that cannot be written. -/
theorem fillAll_cases (resource : Resource) (count : Nat) (offers : List (String × Token)) :
    (∃ after written, resource.fillAll count offers = (after, .ok (count + written)) ∧
        Filled (fun name ↦ offers.lookup name) resource after written) ∨
      ∃ after error, resource.fillAll count offers = (after, .error error) ∧
        Stopped (fun name ↦ offers.lookup name) resource after error := by
  induction offers generalizing resource count with
  | nil => exact .inl ⟨resource, 0, rfl, .nil resource⟩
  | cons offer rest ih =>
    obtain ⟨slot, literal⟩ := offer
    by_cases hset : resource.isSet slot = true
    · rw [fillAll_of_isSet hset]
      rcases ih resource count with
        ⟨after, written, hfill, hfilled⟩ | ⟨after, error, hfill, hstopped⟩
      · exact .inl ⟨after, written, hfill, hfilled.skip hset literal⟩
      · exact .inr ⟨after, error, hfill, hstopped.skip hset literal⟩
    · rcases means_or_fails resource.template slot literal with
        ⟨index, value, hmeans⟩ | ⟨error, hfails⟩
      · rw [fillAll_of_means hset hmeans]
        rcases ih (resource.setAt index value) (count + 1) with ⟨after, written, hfill, hfilled⟩ |
          ⟨after, error, hfill, hstopped⟩
        · rw [Nat.add_right_comm] at hfill
          exact .inl ⟨after, written + 1, hfill, hfilled.cons hset hmeans⟩
        · exact .inr ⟨after, error, hfill, hstopped.cons hset hmeans⟩
      · rw [fillAll_of_fails hset hfails]
        exact .inr ⟨resource, error, rfl, fun _ _ hvalue ↦ hvalue, slot, literal,
          List.lookup_cons_self, hset, hfails⟩

theorem kept_fillAll {held : Value} (resource : Resource) (count : Nat)
    (offers : List (String × Token)) (h : resource.valueAt? index = some held) :
    (resource.fillAll count offers).1.valueAt? index = some held := by
  rcases fillAll_cases resource count offers with ⟨after, written, hfill, hfilled⟩ |
    ⟨after, error, hfill, hstopped⟩
  · rw [hfill]
    exact hfilled.kept index held h
  · rw [hfill]
    exact hstopped.kept index held h

/-! ### What a filling leaves -/

theorem Filled.unique (h : Filled offer before after count)
    (hother : Filled offer before other total) :
    after = other ∧ count = total := by
  have hvalues (index : Nat) : after.valueAt? index = other.valueAt? index := by
    cases hbefore : before.valueAt? index with
    | some value => rw [h.kept index value hbefore, hother.kept index value hbefore]
    | none =>
      ext value
      rw [h.filled index hbefore value, hother.filled index hbefore value]
  constructor
  · rw [h.frame, hother.frame, Std.ExtTreeMap.ext_getElem? hvalues]
  · obtain ⟨indices, rfl, hindices⟩ := h.counted
    obtain ⟨others, rfl, hothers⟩ := hother.counted
    refine congrArg Finset.card (Finset.ext fun index ↦ ?_)
    rw [hindices, hothers, hvalues]

/-- Where nothing is left empty that something is offered for, filling again changes nothing. -/
theorem Filled.again (h : Filled offer before after count) : Filled offer after after 0 where
  frame := rfl
  kept _ _ hvalue := hvalue
  filled index hnone value := by
    refine iff_of_false (by simp [hnone]) ?_
    rintro ⟨slot, literal, hoffer, hmeans⟩
    obtain ⟨place, held, hplace, hheld⟩ := isSet_iff.mp (h.isSet slot literal hoffer)
    obtain rfl := Option.some.inj (hplace.symm.trans hmeans.indexOf?)
    rw [hnone] at hheld
    cases hheld
  isSet := h.isSet
  counted := ⟨∅, rfl, fun index ↦ by simp +contextual⟩

/-- What is offered for an empty slot can be written there, if the gaps can be filled at all. -/
theorem Filled.exists_means (h : Filled offer before after count)
    (hoffer : offer slot = some literal) (hunset : ¬ before.isSet slot = true) :
    ∃ index value, Means before.template slot literal index value := by
  obtain ⟨index, value, hindex, hvalue⟩ := isSet_iff.mp (h.isSet slot literal hoffer)
  rw [h.template_eq] at hindex
  obtain ⟨name, token, hother, hmeans⟩ :=
    (h.filled index (valueAt?_of_not_isSet hunset hindex) value).mp hvalue
  obtain rfl := eq_of_indexOf? hmeans.indexOf? hindex
  obtain rfl := Option.some.inj (hother.symm.trans hoffer)
  exact ⟨index, value, hmeans⟩

theorem fillAll_eq_ok_iff : resource.fillAll 0 offers = (after, .ok count) ↔
    Filled (fun name ↦ offers.lookup name) resource after count := by
  rcases fillAll_cases resource 0 offers with ⟨left, written, hfill, hfilled⟩ |
    ⟨left, error, hfill, hstopped⟩
  · rw [hfill, Nat.zero_add]
    constructor
    · rintro ⟨⟩
      exact hfilled
    · intro h
      obtain ⟨rfl, rfl⟩ := hfilled.unique h
      rfl
  · refine iff_of_false (by rw [hfill]; exact nofun) fun h ↦ ?_
    obtain ⟨slot, literal, hoffer, hunset, hfails⟩ := hstopped.refused
    obtain ⟨index, value, hmeans⟩ := h.exists_means hoffer hunset
    exact hmeans.not_fails hfails

/-! ### Declarations -/

theorem lookup_map_pair (names : List String) (name : String) (literal : Token) :
    (names.map fun slot ↦ (slot, literal)).lookup name = if name ∈ names then
      some literal else none := by
  induction names with
  | nil => rfl
  | cons slot names ih =>
    rw [List.map_cons]
    by_cases hname : name = slot
    · rw [hname, List.lookup_cons_self, if_pos List.mem_cons_self]
    · rw [lookup_cons_of_ne hname, ih]
      simp [hname]

theorem lookup_defaults (field : Field) (slot : String) : field.defaults.lookup slot =
    field.entries.findSome? fun entry ↦
      if slot ∈ entry.slotNames then entry.defaultLiteral? else none := by
  unfold Field.defaults
  induction field.entries with
  | nil => rfl
  | cons entry entries ih =>
    rw [List.flatMap_cons, List.lookup_append, ih, List.findSome?_cons]
    cases entry.defaultLiteral? with
    | none => simp
    | some literal =>
      dsimp only
      rw [lookup_map_pair]
      split_ifs <;> rfl

/-- The defaults of a declaration offer each slot what the first entry offers that has a default for
it. -/
theorem lookup_flatMap_defaults (decl : TypeDecl) (slot : String) :
    (decl.fields.flatMap Field.defaults).lookup slot = offered? decl slot := by
  unfold offered?
  induction decl.fields with
  | nil => rfl
  | cons field fields ih =>
    rw [List.flatMap_cons, List.flatMap_cons, List.lookup_append, List.findSome?_append, ih,
      lookup_defaults]

theorem fillDefaults_eq_ok_iff :
    resource.fillDefaults decl = (after, .ok count) ↔
      Filled (offered? decl) resource after count := by
  rw [Resource.fillDefaults, fillAll_eq_ok_iff, funext (lookup_flatMap_defaults decl)]

/-- Something is offered for a slot exactly if an entry with a default fills it. -/
theorem exists_offered?_iff : (∃ literal, offered? decl slot = some literal) ↔
    ∃ field ∈ decl.fields, ∃ entry ∈ field.entries, entry.default?.isSome = true ∧
      slot ∈ entry.slotNames := by
  have hentry (entry : FieldEntry) :
      (if slot ∈ entry.slotNames then entry.defaultLiteral? else none).isSome = true ↔
      entry.default?.isSome = true ∧ slot ∈ entry.slotNames := by
    rw [FieldEntry.defaultLiteral?]
    split_ifs with hslot <;> simp [hslot]
  rw [← Option.isSome_iff_exists, offered?, List.findSome?_isSome_iff]
  simp only [hentry, List.mem_flatMap]
  constructor
  · rintro ⟨entry, ⟨field, hfield, hmem⟩, hoffer⟩
    exact ⟨field, hfield, entry, hmem, hoffer⟩
  · rintro ⟨field, hfield, entry, hmem, hoffer⟩
    exact ⟨entry, ⟨field, hfield, hmem⟩, hoffer⟩

/-- Filling a resource with the defaults of a declaration never changes a value that it has. A
filling that succeeds writes to each gap the first default that is declared for its slot and to
nothing else, tells how many gaps it filled, leaves no slot empty that an entry has a default for,
and finds nothing to do when it is repeated. -/
theorem fillDefaults_filled (resource : Resource) (decl : TypeDecl) :
    (∀ index value, resource.valueAt? index = some value →
      (resource.fillDefaults decl).1.valueAt? index = some value) ∧
    ∀ after count, resource.fillDefaults decl = (after, .ok count) →
      Filled (offered? decl) resource after count ∧
      (∀ field ∈ decl.fields, ∀ entry ∈ field.entries, entry.default?.isSome = true →
        ∀ slot ∈ entry.slotNames, after.isSet slot = true) ∧
      after.fillDefaults decl = (after, .ok 0) := by
  refine ⟨fun index value hvalue ↦ kept_fillAll resource 0 _ hvalue, fun after count hfill ↦ ?_⟩
  have hfilled := fillDefaults_eq_ok_iff.mp hfill
  refine ⟨hfilled, ?_, fillDefaults_eq_ok_iff.mpr hfilled.again⟩
  intro field hfield entry hentry hdefault slot hslot
  obtain ⟨literal, hoffer⟩ :=
    exists_offered?_iff.mpr ⟨field, hfield, entry, hentry, hdefault, hslot⟩
  exact hfilled.isSet slot literal hoffer

/-- Of two defaults for the slot `PosX` the first is written, a symbol. `PosY` has a value, and
`Mass` no default. -/
theorem fillDefaults_filled_freight :
    ∃ after, ((Resource.ofDecl freight 128 "").setAt 2 (.bytes [7])).fillDefaults freight =
      (after, .ok 1) ∧
      Filled (offered? freight) ((Resource.ofDecl freight 128 "").setAt 2 (.bytes [7])) after 1 ∧
        (after.valueAt? 0 = none ∧ after.valueAt? 1 = some (.signed .byte 127) ∧
          after.valueAt? 2 = some (.bytes [7])) ∧
            after.fillDefaults freight = (after, .ok 0) := by
  obtain ⟨_, hok⟩ :=
    fillDefaults_filled ((Resource.ofDecl freight 128 "").setAt 2 (.bytes [7])) freight
  obtain ⟨hfilled, _, hagain⟩ := hok _ 1 rfl
  exact ⟨_, rfl, hfilled, ⟨rfl, rfl, rfl⟩, hagain⟩

end ResourceLang.Proofs.FilledDefaults
