import ResourceLang.Proofs.SlotImage
import ResourceLang.Resource.Bytes

/-!
All slots of a template, written and read back. Each slot is read where the one before it ends, so
the bytes of a template are read back whatever follows them, and every slot holds what it keeps of
the value that was written.
-/

set_option autoImplicit false
set_option relaxedAutoImplicit false

namespace ResourceLang.Proofs.TemplateRoundTrip

open Layout Template Utf8Reading SlotImage

/-! ### One slot more -/

theorem slot_encode_eq_ok_iff {slot : Slot} {value : Value} {bs : List UInt8} :
    slot.encode value = .ok bs ↔ Image slot.type value bs := by
  rw [← encode_eq_ok_iff, Slot.encode]
  split <;> simp_all

theorem slot_decode_eq_ok_iff {slot : Slot} {value : Value} {bs rest : List UInt8} :
    slot.decode bs = .ok (value, rest) ↔
      ∃ taken, bs = taken ++ rest ∧ Reads slot.type taken rest value := by
  rw [← decode_eq_ok_iff, Slot.decode]
  split <;> simp_all

theorem encodeFrom_cons_eq_ok_iff {values : SlotMap} {index : Nat} {slot : Slot}
    {slots : List Slot} {bs : List UInt8} :
    encodeFrom values index (slot :: slots) = .ok bs ↔
      ∃ value front tail, values[index]? = some value ∧ Image slot.type value front ∧
        encodeFrom values (index + 1) slots = .ok tail ∧ bs = front ++ tail := by
  rw [encodeFrom]
  cases values[index]? with
  | none => simp
  | some value =>
    simp only [bind_eq_ok_iff, slot_encode_eq_ok_iff, pure, Except.pure, Except.ok.injEq,
      Option.some.injEq]
    constructor
    · rintro ⟨front, hfront, tail, htail, rfl⟩
      exact ⟨value, front, tail, rfl, hfront, htail, rfl⟩
    · rintro ⟨_, front, tail, rfl, hfront, htail, rfl⟩
      exact ⟨front, hfront, tail, htail, rfl⟩

theorem decodeFrom_cons_of_reads {slot : Slot} {taken rest : List UInt8} {value : Value}
    (h : Reads slot.type taken rest value) (values : SlotMap) (index : Nat) (slots : List Slot) :
    decodeFrom values index (taken ++ rest) (slot :: slots) =
      decodeFrom (values.insert index value) (index + 1) rest slots := by
  rw [decodeFrom, slot_decode_eq_ok_iff.mpr ⟨taken, rfl, h⟩]

/-! ### All slots -/

/-- Reading touches no index outside the slots that it reads, whether it succeeds or not. -/
theorem getElem?_decodeFrom_of_outside (values : SlotMap) {start index : Nat} (bs : List UInt8)
    {slots : List Slot} (h : index < start ∨ start + slots.length ≤ index) :
    (decodeFrom values start bs slots).1[index]? = values[index]? := by
  induction slots generalizing values start bs with
  | nil => rfl
  | cons slot slots ih =>
    rw [decodeFrom]
    split
    · rfl
    · rw [List.length_cons] at h
      rw [ih _ _ (by omega), Std.ExtTreeMap.getElem?_insert]
      simp only [Std.compare_eq_iff_eq]
      rw [if_neg (by omega)]

/-- The slot that is read first keeps its value while those after it are read. -/
theorem getElem?_decodeFrom_insert_self (before : SlotMap) (start : Nat) (value : Value)
    (bs : List UInt8) (slots : List Slot) :
    (decodeFrom (before.insert start value) (start + 1) bs slots).1[start]? = some value := by
  rw [getElem?_decodeFrom_of_outside _ _ (.inl (Nat.lt_succ_self start))]
  simp

theorem decodeFrom_encodeFrom {values : SlotMap} {start : Nat} {slots : List Slot}
    {bs : List UInt8} (h : encodeFrom values start slots = .ok bs) (before : SlotMap)
    (rest : List UInt8) :
    ∃ after, decodeFrom before start (bs ++ rest) slots = (after, .ok rest) ∧
      ∀ index slot, slots[index]? = some slot → ∃ value bytes, values[start + index]? = some value ∧
        Image slot.type value bytes ∧ after[start + index]? = some (stored slot.type value) := by
  induction slots generalizing start bs before with
  | nil =>
    simp only [encodeFrom, Except.ok.injEq] at h
    subst h
    exact ⟨before, rfl, by simp⟩
  | cons slot slots ih =>
    obtain ⟨value, front, tail, hvalue, hfront, htail, rfl⟩ := encodeFrom_cons_eq_ok_iff.mp h
    have hreads := reads_of_image hfront (tail ++ rest)
    obtain ⟨after, hafter, hslots⟩ := ih htail (before.insert start (stored slot.type value))
    refine ⟨after, ?_, ?_⟩
    · rw [List.append_assoc, decodeFrom_cons_of_reads hreads, hafter]
    · intro index other hother
      cases index with
      | zero =>
        obtain rfl : slot = other := by simpa using hother
        refine ⟨value, front, hvalue, hfront, ?_⟩
        have hkeep := getElem?_decodeFrom_insert_self before start (stored slot.type value)
          (tail ++ rest) slots
        rwa [hafter] at hkeep
      | succ index =>
        have hindex : start + (index + 1) = start + 1 + index := by omega
        rw [hindex]
        exact hslots index other hother

/-- What a template is written as is read back in full, up to its last byte and whatever follows it,
and every slot holds the normal form of the value that was written into it. -/
theorem decode_encode_append {template : Template} {values : SlotMap} {bs : List UInt8}
    (h : template.encode values = .ok bs) (rest : List UInt8) :
    ∃ after : SlotMap, template.decode ∅ (bs ++ rest) = (after, .ok rest) ∧
      (∀ index, index ∈ after ↔ index < template.size) ∧
      ∀ index slot, template.get? index = some slot →
        ∃ value normal, values[index]? = some value ∧ after[index]? = some normal ∧
          NormalForm slot.type value normal := by
  obtain ⟨after, hafter, hslots⟩ := decodeFrom_encodeFrom h ∅ rest
  simp only [Nat.zero_add] at hslots
  refine ⟨after, hafter, ?_, ?_⟩
  · intro index
    rw [Std.ExtTreeMap.mem_iff_isSome_getElem?]
    constructor
    · intro hsome
      by_contra hout
      have hnone : (decodeFrom ∅ 0 (bs ++ rest) template.slots).1[index]? = (∅ : SlotMap)[index]? :=
        getElem?_decodeFrom_of_outside ∅ _
          (.inr (by rw [Nat.zero_add]; exact Nat.le_of_not_lt hout))
      rw [hafter] at hnone
      simp [hnone] at hsome
    · intro hindex
      obtain ⟨value, _, _, _, hvalue⟩ := hslots index _ (List.getElem?_eq_getElem hindex)
      rw [hvalue]
      rfl
  · intro index slot hslot
    obtain ⟨value, bytes, hvalue, himage, hkept⟩ := hslots index slot hslot
    exact ⟨value, stored slot.type value, hvalue, hkept, normalForm_stored himage⟩

/-- A number, a fixed text too narrow for its last character, a terminated text and a blob. -/
def cargo : Template where
  slots := [⟨.synthetic .identifier "mass", .signed .word⟩,
    ⟨.synthetic .identifier "name", .fixed 4⟩,
    ⟨.synthetic .identifier "note", .terminated⟩, ⟨.synthetic .identifier "seal", .hexData⟩]
  distinct := by decide

def cargoValues : SlotMap :=
  .ofList [(0, Value.signed .word 0xFED4), (1, .string "aéé" 5), (2, .string "é" 2),
    (3, .bytes [7])]

theorem decode_encode_append_cargo :
    cargo.encode cargoValues = .ok [0xFE, 0xD4, 0x61, 0xC3, 0xA9, 0, 0xC3, 0xA9, 0, 1, 7] ∧
      ∃ after : SlotMap, cargo.decode ∅ ([0xFE, 0xD4, 0x61, 0xC3, 0xA9, 0, 0xC3, 0xA9, 0, 1, 7] ++
          [0xC3, 0]) = (after, .ok [0xC3, 0]) ∧
        (∀ index, index ∈ after ↔ index < cargo.size) ∧
        ∀ index slot, cargo.get? index = some slot →
          ∃ value normal, cargoValues[index]? = some value ∧ after[index]? = some normal ∧
            NormalForm slot.type value normal :=
  ⟨rfl, decode_encode_append rfl [0xC3, 0]⟩

end ResourceLang.Proofs.TemplateRoundTrip
