import ResourceLang.Proofs.FirstFaultySlot
import ResourceLang.Proofs.TruncatedBytes

/-!
The fixed size of a template. A slot of fixed size is written in as many bytes and read from any
bytes that are as many at least, so both hold of slots one after another with the sum of their
sizes. A template without a fixed size has a slot that is written in more or fewer bytes, and so is
the whole template, unless a slot of it cannot be written at all.
-/

set_option autoImplicit false
set_option relaxedAutoImplicit false

namespace ResourceLang.Proofs.FixedSizes

open Layout SlotImage TemplateRoundTrip FirstFaultySlot TruncatedBytes

open Template (encodeFrom decodeFrom)

/-- The bytes of some slots, if all of them have a fixed size. -/
def fixedSizeOf? (slots : List Slot) : Option Nat :=
  slots.foldr (fun slot size ↦ slot.type.fixedSize?.bind fun n ↦ size.map (n + ·)) (some 0)

variable {type : SlotType} {slot : Slot} {slots : List Slot} {values : SlotMap} {value : Value}
  {start size : Nat} {bs : List UInt8}

/-! ### One slot -/

/-- A slot of fixed size is read by splitting off so many bytes. -/
theorem exists_read_of_fixedSize? (h : type.fixedSize? = some size) :
    ∃ read : List UInt8 → Value, ∀ bs, decode type bs =
      split size bs >>= fun parts ↦ .ok (read parts.1, parts.2) := by
  cases type with
  | signed width =>
    obtain rfl := Option.some.inj h
    exact ⟨fun front ↦ .signed width (BitVec.ofNat width.bits (ofBigEndian front)), fun bs ↦ rfl⟩
  | unsigned width =>
    obtain rfl := Option.some.inj h
    exact ⟨fun front ↦ .unsigned width (BitVec.ofNat width.bits (ofBigEndian front)), fun bs ↦ rfl⟩
  | rect =>
    obtain rfl := Option.some.inj h
    exact ⟨fun front ↦ .rect (rectOfBytes front), fun bs ↦ rfl⟩
  | fixed width =>
    obtain rfl := Option.some.inj h
    exact ⟨fun front ↦ .string (Text.Utf8.lossy (front.takeWhile (· ≠ 0))) width.toNat,
      fun bs ↦ rfl⟩
  | pascal | terminated | hexData | invalid => cases h

theorem decode_of_le (h : type.fixedSize? = some size) (hle : size ≤ bs.length) :
    ∃ value, decode type bs = .ok (value, bs.drop size) := by
  obtain ⟨read, hread⟩ := exists_read_of_fixedSize? h
  have hsplit : split size bs = .ok (bs.take size, bs.drop size) :=
    split_eq_ok_iff.mpr ⟨(List.take_append_drop size bs).symm, List.length_take_of_le hle⟩
  exact ⟨read (bs.take size), by rw [hread, hsplit]; rfl⟩

theorem decode_of_lt (h : type.fixedSize? = some size) (hlt : bs.length < size) :
    decode type bs = .error .truncated := by
  obtain ⟨read, hread⟩ := exists_read_of_fixedSize? h
  rw [hread, split_of_length_lt hlt]
  rfl

/-- What a slot of fixed size is written in is what is read of it again, and so it is of that
size. -/
theorem length_of_image (h : type.fixedSize? = some size) (himage : Image type value bs) :
    bs.length = size := by
  obtain ⟨read, hread⟩ := exists_read_of_fixedSize? h
  have hdecode := decode_of_reads (reads_of_image himage [])
  obtain ⟨⟨front, rest⟩, hsplit, hparts⟩ := bind_eq_ok_iff.mp ((hread _).symm.trans hdecode)
  obtain ⟨hbs, hlength⟩ := split_eq_ok_iff.mp hsplit
  obtain ⟨_, rfl⟩ := Prod.mk.inj (Except.ok.inj hparts)
  rw [List.append_cancel_right hbs, hlength]

theorem isKnown_of_fixedSize? (h : type.fixedSize? = some size) : type.isKnown = true := by
  cases type <;> first | rfl | cases h

theorem exists_image (h : type.isKnown = true) : ∃ value bs, Image type value bs := by
  cases type with
  | signed width => exact ⟨_, _, .signed width 0⟩
  | unsigned width => exact ⟨_, _, .unsigned width 0⟩
  | rect => exact ⟨_, _, .rect ⟨0, 0, 0, 0⟩⟩
  | pascal => exact ⟨_, _, .pascal "" 0⟩
  | fixed width => exact ⟨_, _, .fixed width "" 0 (by simp)⟩
  | terminated => exact ⟨_, _, .terminated "" 0 (by simp)⟩
  | hexData => exact ⟨_, _, .hexData []⟩
  | invalid tag => cases h

/-- A slot without a fixed size has an empty value and one that takes a byte more. -/
theorem exists_images_of_fixedSize?_eq_none (hknown : type.isKnown = true)
    (h : type.fixedSize? = none) :
    ∃ value other bs cs, Image type value bs ∧ Image type other cs ∧ bs.length ≠ cs.length := by
  cases type with
  | pascal => exact ⟨_, _, _, _, .pascal "" 0, .pascal "a" 0, by decide⟩
  | terminated =>
      exact ⟨_, _, _, _, .terminated "" 0 (by simp), .terminated "a" 0 (by simp), by decide⟩
  | hexData => exact ⟨_, _, _, _, .hexData [], .hexData [0], by decide⟩
  | invalid tag => cases hknown
  | signed | unsigned | rect | fixed => cases h

/-! ### Slots one after another -/

theorem fixedSize?_eq (template : Template) : template.fixedSize? = fixedSizeOf? template.slots :=
  rfl

theorem fixedSizeOf?_cons_eq_some_iff : fixedSizeOf? (slot :: slots) = some size ↔
    ∃ first rest, slot.type.fixedSize? = some first ∧ fixedSizeOf? slots = some rest ∧
      size = first + rest := by
  rw [fixedSizeOf?, List.foldr_cons, ← fixedSizeOf?]
  simp only [Option.bind_eq_some_iff, Option.map_eq_some_iff]
  constructor
  · rintro ⟨first, hfirst, rest, hrest, rfl⟩
    exact ⟨first, rest, hfirst, hrest, rfl⟩
  · rintro ⟨first, rest, hfirst, hrest, rfl⟩
    exact ⟨first, hfirst, rest, hrest, rfl⟩

theorem fixedSizeOf?_cons_eq_none_iff : fixedSizeOf? (slot :: slots) = none ↔
    slot.type.fixedSize? = none ∨ fixedSizeOf? slots = none := by
  rw [fixedSizeOf?, List.foldr_cons, ← fixedSizeOf?]
  cases slot.type.fixedSize? <;> simp

theorem isKnown_of_fixedSizeOf? (h : fixedSizeOf? slots = some size) :
    ∀ slot ∈ slots, slot.type.isKnown = true := by
  induction slots generalizing size with
  | nil => simp
  | cons slot slots ih =>
    obtain ⟨first, rest, hfirst, hrest, _⟩ := fixedSizeOf?_cons_eq_some_iff.mp h
    exact List.forall_mem_cons.mpr ⟨isKnown_of_fixedSize? hfirst, ih hrest⟩

theorem length_of_encodeFrom (h : fixedSizeOf? slots = some size)
    (hbs : encodeFrom values start slots = .ok bs) :
    bs.length = size := by
  induction slots generalizing start size bs with
  | nil =>
    obtain rfl := Option.some.inj h
    obtain rfl : [] = bs := Except.ok.inj hbs
    rfl
  | cons slot slots ih =>
    obtain ⟨first, rest, hfirst, hrest, rfl⟩ := fixedSizeOf?_cons_eq_some_iff.mp h
    obtain ⟨value, front, tail, _, hfront, htail, rfl⟩ := encodeFrom_cons_eq_ok_iff.mp hbs
    rw [List.length_append, length_of_image hfirst hfront, ih hrest htail]

theorem exists_decodeFrom_iff (h : fixedSizeOf? slots = some size) (values : SlotMap) (start : Nat)
    (bs : List UInt8) :
    (∃ rest, (decodeFrom values start bs slots).2 = .ok rest) ↔ size ≤ bs.length := by
  induction slots generalizing values start size bs with
  | nil =>
    obtain rfl := Option.some.inj h
    exact iff_of_true ⟨bs, rfl⟩ (Nat.zero_le _)
  | cons slot slots ih =>
    obtain ⟨first, rest, hfirst, hrest, rfl⟩ := fixedSizeOf?_cons_eq_some_iff.mp h
    rcases Nat.lt_or_ge bs.length first with hlt | hle
    · rw [decodeFrom_cons_of_truncated (decode_of_lt hfirst hlt)]
      exact iff_of_false (by simp) (by omega)
    · obtain ⟨value, hvalue⟩ := decode_of_le hfirst hle
      rw [decodeFrom_cons_of_decode hvalue, ih hrest, List.length_drop]
      omega

/-- A value in front of slots that can be written is written in front of their bytes. -/
theorem encodeFrom_insert {front tail : List UInt8} (hfront : Image slot.type value front)
    (htail : encodeFrom values (start + 1) slots = .ok tail) :
    encodeFrom (values.insert start value) start (slot :: slots) = .ok (front ++ tail) := by
  have hkept : encodeFrom (values.insert start value) (start + 1) slots = .ok tail := by
    rw [encodeFrom_congr fun index _ ↦ ?_, htail]
    rw [Std.ExtTreeMap.getElem?_insert, if_neg]
    rw [Std.compare_eq_iff_eq]
    omega
  exact encodeFrom_cons_eq_ok_iff.mpr ⟨value, front, tail, by simp, hfront, hkept, rfl⟩

theorem exists_encodeFrom (hknown : ∀ slot ∈ slots, slot.type.isKnown = true) (start : Nat) :
    ∃ values bs, encodeFrom values start slots = .ok bs := by
  induction slots generalizing start with
  | nil => exact ⟨∅, [], rfl⟩
  | cons slot slots ih =>
    obtain ⟨hslot, hslots⟩ := List.forall_mem_cons.mp hknown
    obtain ⟨value, front, hfront⟩ := exists_image hslot
    obtain ⟨values, tail, htail⟩ := ih hslots (start + 1)
    exact ⟨_, _, encodeFrom_insert hfront htail⟩

/-- Two values of the slot that has no fixed size are enough, with the same values anywhere else. -/
theorem exists_encodeFrom_lengths_ne (hknown : ∀ slot ∈ slots, slot.type.isKnown = true)
    (h : fixedSizeOf? slots = none) (start : Nat) :
    ∃ values other bs cs, encodeFrom values start slots = .ok bs ∧
      encodeFrom other start slots = .ok cs ∧
      bs.length ≠ cs.length := by
  induction slots generalizing start with
  | nil => cases h
  | cons slot slots ih =>
    obtain ⟨hslot, hslots⟩ := List.forall_mem_cons.mp hknown
    rcases fixedSizeOf?_cons_eq_none_iff.mp h with hvaries | hvaries
    · obtain ⟨value, other, front, longer, hfront, hlonger, hne⟩ :=
        exists_images_of_fixedSize?_eq_none hslot hvaries
      obtain ⟨values, tail, htail⟩ := exists_encodeFrom hslots (start + 1)
      refine ⟨_, _, _, _, encodeFrom_insert hfront htail, encodeFrom_insert hlonger htail, ?_⟩
      rw [List.length_append, List.length_append]
      omega
    · obtain ⟨value, front, hfront⟩ := exists_image hslot
      obtain ⟨values, other, tail, longer, htail, hlonger, hne⟩ := ih hslots hvaries (start + 1)
      refine ⟨_, _, _, _, encodeFrom_insert hfront htail, encodeFrom_insert hfront hlonger, ?_⟩
      rw [List.length_append, List.length_append]
      omega

/-- Where a template has a fixed size, there are values that it can be written from, it is written
in so many bytes whatever its values, and bytes are read into it over any values exactly if there
are so many at least. Where it has none and the types of its slots are known, values that it can be
written from differ in the number of their bytes. -/
theorem lengths_fixedSize? (template : Template) :
    (∀ size, template.fixedSize? = some size →
      (∃ values bs, template.encode values = .ok bs) ∧
      (∀ values bs, template.encode values = .ok bs → bs.length = size) ∧
      ∀ values bs, (∃ rest, (template.decode values bs).2 = .ok rest) ↔ size ≤ bs.length) ∧
    (template.fixedSize? = none → (∀ slot ∈ template.slots, slot.type.isKnown = true) →
      ∃ values other bs cs, template.encode values = .ok bs ∧ template.encode other = .ok cs ∧
        bs.length ≠ cs.length) := by
  rw [fixedSize?_eq]
  refine ⟨fun size hsize ↦ ⟨?_, ?_, ?_⟩, fun hnone hknown ↦ ?_⟩
  · exact exists_encodeFrom (isKnown_of_fixedSizeOf? hsize) 0
  · exact fun values bs hbs ↦ length_of_encodeFrom hsize hbs
  · exact fun values bs ↦ exists_decodeFrom_iff hsize values 0 bs
  · exact exists_encodeFrom_lengths_ne hknown hnone 0

/-- Two slots of a width of their own and a fixed text. -/
def badge : Template where
  slots := [⟨.synthetic .identifier "edges", .rect⟩, ⟨.synthetic .identifier "code", .fixed 3⟩,
    ⟨.synthetic .identifier "serial", .unsigned .long⟩]
  distinct := by decide

theorem lengths_fixedSize?_badge :
    badge.fixedSize? = some 15 ∧ (∀ values bs, badge.encode values = .ok bs → bs.length = 15) ∧
      (∀ values bs, (∃ rest, (badge.decode values bs).2 = .ok rest) ↔ 15 ≤ bs.length) ∧
      cargo.fixedSize? = none ∧ ∃ values other bs cs, cargo.encode values = .ok bs ∧
        cargo.encode other = .ok cs ∧ bs.length ≠ cs.length := by
  obtain ⟨_, hlength, hdecode⟩ := (lengths_fixedSize? badge).1 15 rfl
  exact ⟨rfl, hlength, hdecode, rfl, (lengths_fixedSize? cargo).2 rfl (by decide)⟩

end ResourceLang.Proofs.FixedSizes
