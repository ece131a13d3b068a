import ResourceLang.Proofs.TemplateRoundTrip

/-!
What reading bytes leaves behind. Reading that stops at a slot has done what reading the slots
before it does, and nothing else: no later slot and no index outside the template is touched.
Reading that fills every slot writes values that hang on the template and the bytes alone.
-/

set_option autoImplicit false
set_option relaxedAutoImplicit false

namespace ResourceLang.Proofs.StoppedReading

open Layout Template SlotImage TemplateRoundTrip

/-- The template of the first slots. -/
def front (template : Template) (count : Nat) : Template where
  slots := template.slots.take count
  distinct := template.distinct.sublist ((List.take_sublist count template.slots).map Slot.name)

/-- Why a slot cannot be read: there are no values of its type, or its bytes are not all there. -/
def fault (slot : Slot) : ReadError :=
  if slot.type.isKnown then .truncated slot.name else .unsupportedType slot.name slot.type

/-! ### One slot -/

theorem bind_eq_error_iff {ε α β : Type} {x : Except ε α} {f : α → Except ε β} {e : ε} :
    (x >>= f) = .error e ↔ x = .error e ∨ ∃ a, x = .ok a ∧ f a = .error e := by
  cases x with
  | error e => simp [bind, Except.bind]
  | ok a => simp [bind, Except.bind]

theorem eq_truncated_of_split {count : Nat} {bs : List UInt8} {cause : DecodeFault}
    (h : split count bs = .error cause) : cause = .truncated := by
  unfold split at h
  simp only [] at h
  split_ifs at h
  exact (Except.error.inj h).symm

theorem eq_truncated_of_splitCounted {bs : List UInt8} {cause : DecodeFault}
    (h : splitCounted bs = .error cause) : cause = .truncated := by
  cases bs with
  | nil => exact (Except.error.inj h).symm
  | cons count bs => exact eq_truncated_of_split h

theorem eq_of_decode_error {type : SlotType} {bs : List UInt8} {cause : DecodeFault}
    (h : Layout.decode type bs = .error cause) :
    cause = if type.isKnown then .truncated else .unsupported := by
  cases type with
  | invalid tag => exact (Except.error.inj h).symm
  | terminated => cases h
  | pascal | hexData =>
    rcases bind_eq_error_iff.mp h with hsplit | ⟨_, _, hpure⟩
    · exact eq_truncated_of_splitCounted hsplit
    · cases hpure
  | signed | unsigned | rect | fixed =>
    rcases bind_eq_error_iff.mp h with hsplit | ⟨_, _, hpure⟩
    · exact eq_truncated_of_split hsplit
    · cases hpure

theorem eq_fault_of_decode {slot : Slot} {bs : List UInt8} {error : ReadError}
    (h : slot.decode bs = .error error) : error = fault slot := by
  unfold Slot.decode at h
  unfold fault
  split at h
  · cases h
  · rename_i hcause
    have hknown := eq_of_decode_error hcause
    split_ifs at hknown ⊢
    exact (Except.error.inj h).symm
  · rename_i hcause
    have hknown := eq_of_decode_error hcause
    split_ifs at hknown ⊢
    exact (Except.error.inj h).symm

/-! ### All slots -/

/-- Reading that fails has read all slots up to some slot, and fails at that one. -/
theorem exists_of_decodeFrom_error {values after : SlotMap} {start : Nat} {bs : List UInt8}
    {slots : List Slot} {error : ReadError}
    (h : decodeFrom values start bs slots = (after, .error error)) :
    ∃ before slot later rest, slots = before ++ slot :: later ∧
      decodeFrom values start bs before = (after, .ok rest) ∧ slot.decode rest = .error error := by
  induction slots generalizing values start bs with
  | nil => cases (Prod.mk.inj h).2
  | cons slot slots ih =>
    rw [decodeFrom] at h
    split at h
    · rename_i cause hcause
      obtain ⟨rfl, herror⟩ := Prod.mk.inj h
      obtain rfl := Except.error.inj herror
      exact ⟨[], slot, slots, bs, rfl, rfl, hcause⟩
    · rename_i value rest hvalue
      obtain ⟨before, last, later, left, rfl, hbefore, hlast⟩ := ih h
      refine ⟨slot :: before, last, later, left, rfl, ?_, hlast⟩
      rw [decodeFrom, hvalue]
      exact hbefore

/-- Reading that fills all slots fills them with the same values whatever they held before. -/
theorem exists_of_decodeFrom_ok {values after : SlotMap} {start : Nat} {bs rest : List UInt8}
    {slots : List Slot} (h : decodeFrom values start bs slots = (after, .ok rest)) :
    ∃ read : List Value, read.length = slots.length ∧ ∀ other : SlotMap,
      ∃ filled, decodeFrom other start bs slots = (filled, .ok rest) ∧
        ∀ index value, read[index]? = some value → filled[start + index]? = some value := by
  induction slots generalizing values start bs with
  | nil =>
    refine ⟨[], rfl, fun other ↦ ⟨other, ?_, by simp⟩⟩
    rw [← (Prod.mk.inj h).2]
    rfl
  | cons slot slots ih =>
    rw [decodeFrom] at h
    split at h
    · cases (Prod.mk.inj h).2
    · rename_i first middle hfirst
      obtain ⟨read, hlength, hread⟩ := ih h
      refine ⟨first :: read, congrArg Nat.succ hlength, fun other ↦ ?_⟩
      obtain ⟨filled, hfilled, hvalues⟩ := hread (other.insert start first)
      refine ⟨filled, ?_, ?_⟩
      · rw [decodeFrom, hfirst]
        exact hfilled
      · intro index value hvalue
        cases index with
        | zero =>
          obtain rfl : first = value := Option.some.inj hvalue
          have hkeep := getElem?_decodeFrom_insert_self other start first middle slots
          rwa [hfilled] at hkeep
        | succ index =>
          have hindex : start + (index + 1) = start + 1 + index := by omega
          rw [hindex]
          exact hvalues index value hvalue

/-! ### Templates -/

theorem slots_front (template : Template) (count : Nat) :
    (front template count).slots = template.slots.take count := rfl

theorem getElem?_decodeFrom_of_length_le (values : SlotMap) (bs : List UInt8) {slots : List Slot}
    {index : Nat} (h : slots.length ≤ index) :
    (decodeFrom values 0 bs slots).1[index]? = values[index]? :=
  getElem?_decodeFrom_of_outside values bs (.inr ((Nat.zero_add slots.length).symm ▸ h))

/-- What reading leaves behind that stops at the slot of index `count`. -/
structure StopsAt (template : Template) (values : SlotMap) (bs : List UInt8) (after : SlotMap)
    (error : ReadError) (count : Nat) : Prop where
  error_eq : ∃ slot, template.get? count = some slot ∧ error = fault slot
  front_eq : ∃ rest, (front template count).decode values bs = (after, .ok rest)
  kept : ∀ index, count ≤ index → after[index]? = values[index]?

/-- What reading leaves behind that gets through all slots: each holds a value that it holds after
reading over any other values too. -/
structure Fills (template : Template) (values : SlotMap) (bs : List UInt8) (after : SlotMap)
    (rest : List UInt8) : Prop where
  succeeds : ∀ other : SlotMap, (template.decode other bs).2 = .ok rest
  filled : ∀ index < template.size, ∃ value, after[index]? = some value ∧
    ∀ other : SlotMap, (template.decode other bs).1[index]? = some value
  kept : ∀ index, template.size ≤ index → after[index]? = values[index]?

theorem stopsAt_of_decode {template : Template} {values after : SlotMap} {bs : List UInt8}
    {error : ReadError} (h : template.decode values bs = (after, .error error)) :
    ∃ count, StopsAt template values bs after error count := by
  obtain ⟨before, slot, later, rest, hslots, hbefore, hslot⟩ := exists_of_decodeFrom_error h
  have hfront : (front template before.length).slots = before := by
    rw [slots_front, hslots, List.take_left]
  refine ⟨before.length, ⟨slot, ?_, eq_fault_of_decode hslot⟩, ⟨rest, ?_⟩, ?_⟩
  · rw [get?, hslots, List.getElem?_append_right le_rfl, Nat.sub_self]
    rfl
  · rw [Template.decode, hfront, hbefore]
  · intro index hindex
    have hkept := getElem?_decodeFrom_of_length_le values bs hindex
    rwa [hbefore] at hkept

theorem fills_of_decode {template : Template} {values after : SlotMap} {bs rest : List UInt8}
    (h : template.decode values bs = (after, .ok rest)) : Fills template values bs after rest := by
  obtain ⟨read, hlength, hread⟩ := exists_of_decodeFrom_ok h
  simp only [Nat.zero_add] at hread
  refine ⟨fun other ↦ ?_, fun index hindex ↦ ?_, fun index hindex ↦ ?_⟩
  · obtain ⟨filled, hfilled, _⟩ := hread other
    exact congrArg Prod.snd hfilled
  · obtain ⟨value, hvalue⟩ : ∃ value, read[index]? = some value :=
      ⟨_, List.getElem?_eq_getElem (hlength.symm ▸ hindex)⟩
    have hall (other : SlotMap) : (template.decode other bs).1[index]? = some value := by
      obtain ⟨filled, hfilled, hvalues⟩ := hread other
      rw [Template.decode, hfilled]
      exact hvalues index value hvalue
    have hafter := hall values
    rw [h] at hafter
    exact ⟨value, hafter, hall⟩
  · have hkept := getElem?_decodeFrom_of_length_le values bs hindex
    rwa [← Template.decode, h] at hkept

/-- Reading bytes into a template over any values either stops at a slot, with the slots before it
read and nothing else changed, or fills every slot from the bytes alone and changes nothing outside
of them. -/
theorem decode_stops_or_fills (template : Template) (values : SlotMap) (bs : List UInt8) :
    match template.decode values bs with
    | (after, .error error) => ∃ count, StopsAt template values bs after error count
    | (after, .ok rest) => Fills template values bs after rest := by
  cases hdecode : template.decode values bs with
  | mk after outcome =>
    cases outcome with
    | error error => exact stopsAt_of_decode hdecode
    | ok rest => exact fills_of_decode hdecode

/-- A number, a slot of no known type and a text behind it. -/
def marked : Template where
  slots := [⟨.synthetic .identifier "mass", .signed .word⟩,
    ⟨.synthetic .identifier "mark", .invalid 0x7000⟩, ⟨.synthetic .identifier "note", .terminated⟩]
  distinct := by decide

/-- Values that fit no slot of their index, and one behind the template. -/
def staleValues : SlotMap :=
  .ofList [(0, Value.string "old" 3), (1, .bytes [2]), (2, .unsigned .byte 1), (9, .bytes [])]

theorem decode_stops_or_fills_marked :
    (∃ after, marked.decode staleValues [0, 9, 0x61] =
        (after, .error (.unsupportedType "mark" (.invalid 0x7000))) ∧
      ∃ count, StopsAt marked staleValues [0, 9, 0x61] after
        (.unsupportedType "mark" (.invalid 0x7000)) count) ∧
    ∃ after, cargo.decode staleValues [0, 9, 0x61, 0, 0, 0, 0x62, 0, 1, 7, 5] = (after, .ok [5]) ∧
      Fills cargo staleValues [0, 9, 0x61, 0, 0, 0, 0x62, 0, 1, 7, 5] after [5] := by
  have hstops := decode_stops_or_fills marked staleValues [0, 9, 0x61]
  have hfills := decode_stops_or_fills cargo staleValues [0, 9, 0x61, 0, 0, 0, 0x62, 0, 1, 7, 5]
  exact ⟨⟨_, rfl, hstops⟩, _, rfl, hfills⟩

end ResourceLang.Proofs.StoppedReading
