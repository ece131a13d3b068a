import ResourceLang.Proofs.TypedSlots

/-!
When the slots of a template can be written out, and what is reported when they cannot. A slot is
ready if it has a value of its form, and no NUL where that would end the text. All values are
written out exactly if every slot is ready; otherwise the first slot that is not is reported, and
there is one fault that it can have.
-/

set_option autoImplicit false
set_option relaxedAutoImplicit false

namespace ResourceLang.Proofs.FirstFaultySlot

open Layout SlotImage TemplateRoundTrip TypedSlots

/-- No text stands in the slot that would be read back shorter. -/
def NulFree (slot : Slot) (value? : Option Value) : Prop :=
  slot.type.endsAtNul = true → ∀ text hint, value? = some (.string text hint) → '\x00' ∉ text.toList

/-- The slot has a value of its form, and no NUL in a text that ends at one. -/
def Ready (slot : Slot) (value? : Option Value) : Prop :=
  (∃ value, value? = some value ∧ value.fits slot.type = true) ∧ NulFree slot value?

/-- What is wrong with a slot that is not ready. -/
inductive Faulty (slot : Slot) : Option Value → WriteError → Prop
  | missing : Faulty slot none (.missingValue slot.name)
  | unsupported {tag : UInt16} (htype : slot.type = .invalid tag) (value : Value) :
    Faulty slot (some value) (.unsupportedType slot.name slot.type)
  | embeddedNul {text : String} (hends : slot.type.endsAtNul = true) (hnul : '\x00' ∈ text.toList)
      (hint : Nat) :
    Faulty slot (some (.string text hint)) (.invalidLiteral slot.name (Text.Quoted.bare text))
  | mismatch {value : Value} (hknown : ∀ tag, slot.type ≠ .invalid tag)
      (hfits : value.fits slot.type = false) :
    Faulty slot (some value) (.typeMismatch slot.name slot.type value.typeName)

/-- The slot at the index is the first that is not ready. -/
structure First (template : Template) (values : SlotMap) (index : Nat) (slot : Slot) : Prop where
  present : template.get? index = some slot
  faulty : ¬ Ready slot values[index]?
  earlier : ∀ earlier < index, ∀ other, template.get? earlier = some other →
    Ready other values[earlier]?

variable {slot : Slot} {value? : Option Value} {value : Value} {error : WriteError}
  {bs : List UInt8} {template : Template} {values : SlotMap}

/-! ### One slot -/

/-- All that can be wrong with a value and the type that it is laid out as. -/
theorem cases_of_encode_error {type : SlotType} {cause : EncodeFault}
    (h : Layout.encode type value = .error cause) :
    (∃ tag, type = .invalid tag) ∧ cause = .unsupported ∨
      (∀ tag, type ≠ .invalid tag) ∧ value.fits type = false ∧ cause = .mismatch ∨
        type.endsAtNul = true ∧ ∃ text hint, value = .string text hint ∧ '\x00' ∈ text.toList ∧
          cause = .embeddedNul text := by
  unfold Layout.encode at h
  split at h
  · exact .inl ⟨⟨_, rfl⟩, (Except.error.inj h).symm⟩
  · rename_i hknown
    split_ifs at h with hfits
    · cases value with
      | string text hint =>
        dsimp only [bytesOfText] at h
        split_ifs at h with hnul
        · exact .inr (.inr ⟨hnul.1, text, hint, rfl, hnul.2, (Except.error.inj h).symm⟩)
        · split at h <;> cases h
      | _ => cases h
    · exact .inr (.inl ⟨hknown, by simpa using hfits, (Except.error.inj h).symm⟩)

theorem faulty_of_bytesAt (h : bytesAt slot value? = .error error) : Faulty slot value? error := by
  cases value? with
  | none =>
    obtain rfl := Except.error.inj h
    exact .missing
  | some value =>
    rw [bytesAt, Slot.encode] at h
    cases hencode : Layout.encode slot.type value with
    | ok bs =>
      rw [hencode] at h
      cases h
    | error cause =>
      rw [hencode] at h
      rcases cases_of_encode_error hencode with ⟨⟨tag, htype⟩, rfl⟩ | ⟨hknown, hfits, rfl⟩ |
        ⟨hends, text, hint, rfl, hnul, rfl⟩
      · obtain rfl := Except.error.inj h
        exact .unsupported htype value
      · obtain rfl := Except.error.inj h
        exact .mismatch hknown hfits
      · obtain rfl := Except.error.inj h
        exact .embeddedNul hends hnul hint

theorem ready_of_bytesAt (h : bytesAt slot value? = .ok bs) : Ready slot value? := by
  obtain ⟨value, rfl⟩ := exists_value_of_bytesAt h
  have hholds := holds_of_image (slot_encode_eq_ok_iff.mp h)
  refine ⟨⟨value, rfl, hholds.fits⟩, fun hends text hint hvalue ↦ ?_⟩
  exact hholds.nulFree hends text hint (Option.some.inj hvalue)

theorem Faulty.not_ready (h : Faulty slot value? error) : ¬ Ready slot value? := by
  rintro ⟨⟨held, hheld, hfits⟩, hnulFree⟩
  cases h with
  | missing => cases hheld
  | @unsupported tag htype value =>
    rw [htype] at hfits
    cases held <;> cases hfits
  | @embeddedNul text hends hnul hint => exact hnulFree hends text hint rfl hnul
  | mismatch hknown hmismatch =>
    obtain rfl := Option.some.inj hheld
    rw [hmismatch] at hfits
    cases hfits

theorem exists_bytesAt_iff : (∃ bs, bytesAt slot value? = .ok bs) ↔ Ready slot value? := by
  refine ⟨fun ⟨bs, hbytes⟩ ↦ ready_of_bytesAt hbytes, fun hready ↦ ?_⟩
  cases hbytes : bytesAt slot value? with
  | ok bs => exact ⟨bs, rfl⟩
  | error error => exact absurd hready (faulty_of_bytesAt hbytes).not_ready

theorem fits_of_endsAtNul {type : SlotType} (h : type.endsAtNul = true) (text : String)
    (hint : Nat) :
    (Value.string text hint).fits type = true := by
  cases type <;> first | rfl | cases h

/-- A slot has one fault at most. -/
theorem Faulty.unique {other : WriteError} (h : Faulty slot value? error)
    (hother : Faulty slot value? other) :
    error = other := by
  cases h with
  | missing =>
    cases hother with
    | missing => rfl
  | unsupported htype value =>
    cases hother with
    | unsupported _ _ => rfl
    | embeddedNul hends _ _ => rw [htype] at hends; cases hends
    | mismatch hknown _ => exact absurd htype (hknown _)
  | embeddedNul hends hnul hint =>
    cases hother with
    | unsupported htype _ => rw [htype] at hends; cases hends
    | embeddedNul _ _ _ => rfl
    | mismatch _ hfits => rw [fits_of_endsAtNul hends] at hfits; cases hfits
  | mismatch hknown hfits =>
    cases hother with
    | unsupported htype _ => exact absurd htype (hknown _)
    | embeddedNul hends _ _ => rw [fits_of_endsAtNul hends] at hfits; cases hfits
    | mismatch _ _ => rfl

/-! ### All slots -/

theorem First.unique {index place : Nat} {found : Slot} (h : First template values index slot)
    (hother : First template values place found) : index = place ∧ slot = found := by
  have hindex : index = place := by
    rcases Nat.lt_trichotomy index place with hlt | hsame | hlt
    · exact absurd (hother.earlier index hlt slot h.present) h.faulty
    · exact hsame
    · exact absurd (h.earlier place hlt found hother.present) hother.faulty
  exact ⟨hindex, Option.some.inj (h.present.symm.trans (hindex ▸ hother.present))⟩

/-- The slots are all ready and are written out, or the fault of the first one that is not is
reported. -/
theorem encode_cases (template : Template) (values : SlotMap) :
    (∃ bs, template.encode values = .ok bs) ∧
        (∀ index slot, template.get? index = some slot → Ready slot values[index]?) ∨
      ∃ index slot error, template.encode values = .error error ∧ First template values index slot ∧
        Faulty slot values[index]? error := by
  rcases encodeFrom_cases values 0 template.slots with ⟨hok, hall⟩ |
    ⟨index, slot, error, herror, hslot, hrefused, hall⟩
  · simp only [Nat.zero_add, exists_bytesAt_iff] at hall
    exact .inl ⟨hok, hall⟩
  · simp only [Nat.zero_add, exists_bytesAt_iff] at hrefused hall
    have hfaulty := faulty_of_bytesAt hrefused
    exact .inr ⟨index, slot, error, herror, ⟨hslot, hfaulty.not_ready, hall⟩, hfaulty⟩

theorem exists_encode_iff (template : Template) (values : SlotMap) :
    (∃ bs, template.encode values = .ok bs) ↔
    ∀ index slot, template.get? index = some slot → Ready slot values[index]? := by
  rcases encode_cases template values with ⟨hok, hall⟩ | ⟨index, slot, error, herror, hfirst, _⟩
  · exact iff_of_true hok hall
  · refine iff_of_false (by simp [herror]) fun hall ↦ ?_
    exact hfirst.faulty (hall index slot hfirst.present)

theorem encode_eq_error_iff (template : Template) (values : SlotMap) (error : WriteError) :
    template.encode values = .error error ↔
      ∃ index slot, First template values index slot ∧ Faulty slot values[index]? error := by
  rcases encode_cases template values with
    ⟨⟨bs, hok⟩, hall⟩ | ⟨index, slot, found, herror, hfirst, hfaulty⟩
  · refine iff_of_false (by simp [hok]) ?_
    rintro ⟨index, slot, hfirst, _⟩
    exact hfirst.faulty (hall index slot hfirst.present)
  · rw [herror, Except.error.injEq]
    constructor
    · rintro rfl
      exact ⟨index, slot, hfirst, hfaulty⟩
    · rintro ⟨place, other, hother, hreported⟩
      obtain ⟨rfl, rfl⟩ := hfirst.unique hother
      exact hfaulty.unique hreported

/-- A complete resource lacks nothing but that its texts end where they are read to end. -/
theorem forall_ready_iff (resource : Resource) :
    (∀ index slot, resource.template.get? index = some slot → Ready slot resource.values[index]?) ↔
      resource.isComplete = true ∧
        ∀ index slot, resource.template.get? index = some slot →
          NulFree slot resource.values[index]? := by
  rw [isComplete_iff]
  constructor
  · exact fun h ↦ ⟨fun index slot hslot ↦ (h index slot hslot).1, fun index slot hslot ↦
      (h index slot hslot).2⟩
  · exact fun h index slot hslot ↦ ⟨h.1 index slot hslot, h.2 index slot hslot⟩

theorem encodeFrom_congr {other : SlotMap} {start : Nat} {slots : List Slot}
    (h : ∀ index < slots.length, other[start + index]? = values[start + index]?) :
    Template.encodeFrom other start slots = Template.encodeFrom values start slots := by
  induction slots generalizing start with
  | nil => rfl
  | cons slot slots ih =>
    have hfirst : other[start]? = values[start]? := h 0 (Nat.succ_pos _)
    have hrest : ∀ index < slots.length, other[start + 1 + index]? =
        values[start + 1 + index]? := by
      intro index hindex
      have hshift : start + 1 + index = start + (index + 1) := by omega
      rw [hshift]
      exact h (index + 1) (Nat.succ_lt_succ hindex)
    rw [encodeFrom_cons, encodeFrom_cons, hfirst, ih hrest]

/-- The values of a template are written out exactly if every slot is ready, which is to say that
the resource is complete and no text in it ends too early. Otherwise the first slot that is not
ready is reported with its fault. Values outside the template have no say. -/
theorem encode_ready (template : Template) (values : SlotMap) :
    ((∃ bs, template.encode values = .ok bs) ↔
      ∀ index slot, template.get? index = some slot → Ready slot values[index]?) ∧
    (∀ resource : Resource, resource.template = template → resource.values = values →
      ((∃ bs, template.encode values = .ok bs) ↔ resource.isComplete = true ∧
        ∀ index slot, template.get? index = some slot → NulFree slot values[index]?)) ∧
    (∀ error, template.encode values = .error error ↔
      ∃ index slot, First template values index slot ∧ Faulty slot values[index]? error) ∧
    ∀ other : SlotMap, (∀ index < template.size, other[index]? = values[index]?) →
      template.encode other = template.encode values := by
  refine ⟨exists_encode_iff template values, ?_, encode_eq_error_iff template values, ?_⟩
  · rintro resource rfl rfl
    rw [exists_encode_iff, forall_ready_iff]
  · intro other hother
    refine encodeFrom_congr fun index hindex ↦ ?_
    rw [Nat.zero_add]
    exact hother index hindex

/-- The name of the cargo has a NUL, there is nothing behind it, and a value stands outside the
template. -/
def spoiledValues : SlotMap :=
  .ofList [(0, Value.signed .word 5), (1, .string "a\x00b" 3), (9, .bytes [])]

theorem encode_ready_spoiled :
    cargo.encode spoiledValues = .error (.invalidLiteral "name" "a\\0b") ∧
      cargo.encode (cargoValues.insert 9 (.bytes [])) = cargo.encode cargoValues := by
  have hname : Faulty ⟨.synthetic .identifier "name", .fixed 4⟩ spoiledValues[1]?
      (.invalidLiteral "name" "a\\0b") := by
    have hvalue : spoiledValues[1]? = some (.string "a\x00b" 3) := rfl
    have hquoted : Text.Quoted.bare "a\x00b" = "a\\0b" := by decide
    rw [hvalue, ← hquoted]
    exact .embeddedNul rfl (by decide) 3
  have hmass : bytesAt ⟨.synthetic .identifier "mass", .signed .word⟩ spoiledValues[0]? =
      .ok [0, 5] := rfl
  have hfirst : First cargo spoiledValues 1 ⟨.synthetic .identifier "name", .fixed 4⟩ := by
    refine ⟨rfl, hname.not_ready, fun index hindex slot hslot ↦ ?_⟩
    obtain rfl := Nat.lt_one_iff.mp hindex
    obtain rfl : ⟨.synthetic .identifier "mass", .signed .word⟩ = slot := Option.some.inj hslot
    exact ready_of_bytesAt hmass
  refine ⟨((encode_ready cargo spoiledValues).2.2.1 _).mpr ⟨1, _, hfirst, hname⟩, ?_⟩
  refine (encode_ready cargo cargoValues).2.2.2 _ fun index hindex ↦ ?_
  rw [Std.ExtTreeMap.getElem?_insert, if_neg]
  rw [Std.compare_eq_iff_eq]
  exact (Nat.lt_trans hindex (by decide)).ne'

end ResourceLang.Proofs.FirstFaultySlot
