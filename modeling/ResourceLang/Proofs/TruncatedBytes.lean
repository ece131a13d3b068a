import ResourceLang.Proofs.TemplateRoundTrip

/-!
Bytes that break off early. Slots that lie wholly in front of the break are read as if nothing were
missing. The slot at the break cannot be read, unless it is a terminated text, which takes all that
is left; from then on only slots that need no bytes can be read, and the first other one is reported
as truncated.
-/

set_option autoImplicit false
set_option relaxedAutoImplicit false

namespace ResourceLang.Proofs.TruncatedBytes

open Layout SlotImage TemplateRoundTrip

open Template (encodeFrom decodeFrom)

/-! ### One slot -/

theorem length_lt_of_isPrefix {bs front : List UInt8} (h : front <+: bs) (hne : front ≠ bs) :
    front.length < bs.length :=
  lt_of_le_of_ne h.length_le fun hlength ↦ hne (h.eq_of_length hlength)

theorem split_of_length_lt {count : Nat} {bs : List UInt8} (h : bs.length < count) :
    split count bs = .error .truncated := by
  unfold split
  rw [List.take_of_length_le (Nat.le_of_lt h)]
  exact if_neg (Nat.ne_of_lt h)

theorem splitCounted_of_isPrefix {body front : List UInt8} (hbody : body.length < 256)
    (h : front <+: counted body) (hne : front ≠ counted body) :
    splitCounted front = .error .truncated := by
  have hlength := length_lt_of_isPrefix h hne
  cases front with
  | nil => rfl
  | cons count front =>
    obtain ⟨rfl, _⟩ := List.cons_prefix_cons.mp h
    rw [splitCounted, UInt8.toNat_ofNat_of_lt' hbody]
    exact split_of_length_lt (Nat.lt_of_succ_lt_succ hlength)

/-- Whether slots of the type take a byte at least. A terminated text may end where the bytes do. -/
def needsBytes (type : SlotType) : Bool := type ≠ .terminated && type ≠ .fixed 0

theorem needsBytes_eq_false_iff (type : SlotType) :
    needsBytes type = false ↔ type = .terminated ∨ type = .fixed 0 := by
  simp [needsBytes, or_iff_not_imp_left]

theorem needsBytes_fixed_iff (width : UInt16) :
    needsBytes (.fixed width) = true ↔ 0 < width.toNat := by
  rw [← not_iff_not, Bool.not_eq_true, needsBytes_eq_false_iff, Nat.pos_iff_ne_zero, not_not]
  simp [← UInt16.toNat_inj]

/-- A slot whose bytes break off is truncated, or it is a terminated text and ends at the break. -/
theorem decode_of_isPrefix {type : SlotType} {taken rest front : List UInt8} {value : Value}
    (h : Reads type taken rest value) (hfront : front <+: taken) (hne : front ≠ taken) :
    needsBytes type = true ∧ decode type front = .error .truncated ∨
      needsBytes type = false ∧ ∃ short, decode type front = .ok (short, []) := by
  have hlt := length_lt_of_isPrefix hfront hne
  cases h with
  | unsigned rest hlength =>
    rw [decode, split_of_length_lt (hlength ▸ hlt)]
    exact .inl ⟨rfl, rfl⟩
  | signed rest hlength =>
    rw [decode, split_of_length_lt (hlength ▸ hlt)]
    exact .inl ⟨rfl, rfl⟩
  | rect rest hlength =>
    rw [decode, split_of_length_lt (hlength ▸ hlt)]
    exact .inl ⟨rfl, rfl⟩
  | pascal rest hlength =>
    rw [decode, splitCounted_of_isPrefix hlength hfront hne]
    exact .inl ⟨rfl, rfl⟩
  | hexData rest hlength =>
    rw [decode, splitCounted_of_isPrefix hlength hfront hne]
    exact .inl ⟨rfl, rfl⟩
  | @fixed width _ rest hlength =>
    rw [decode, split_of_length_lt (hlength ▸ hlt)]
    exact .inl ⟨(needsBytes_fixed_iff width).mpr (by omega), rfl⟩
  | @terminated body rest hbody =>
    have hshort : front <+: body := (List.prefix_concat_iff.mp hfront).resolve_left hne
    have hreads := decode_of_reads (.unterminated fun hmem ↦ hbody (hshort.subset hmem))
    rw [List.append_nil] at hreads
    exact .inr ⟨rfl, _, hreads⟩
  | unterminated hbody =>
    have hreads := decode_of_reads (.unterminated fun hmem ↦ hbody (hfront.subset hmem))
    rw [List.append_nil] at hreads
    exact .inr ⟨rfl, _, hreads⟩

theorem decode_nil_of_needsBytes {type : SlotType} (hknown : type.isKnown = true)
    (h : needsBytes type = true) : decode type [] = .error .truncated := by
  cases type with
  | signed width => cases width <;> rfl
  | unsigned width => cases width <;> rfl
  | rect => rfl
  | pascal => rfl
  | hexData => rfl
  | terminated => cases h
  | invalid tag => cases hknown
  | fixed width =>
    rw [decode, split_of_length_lt ((needsBytes_fixed_iff width).mp h)]
    rfl

theorem decode_nil_of_not_needsBytes {type : SlotType} (h : needsBytes type = false) :
    ∃ value, decode type [] = .ok (value, []) := by
  rcases (needsBytes_eq_false_iff type).mp h with rfl | rfl
  · exact ⟨_, rfl⟩
  · exact ⟨_, rfl⟩

theorem decodeFrom_cons_of_truncated {slot : Slot} {bs : List UInt8}
    (h : decode slot.type bs = .error .truncated) (values : SlotMap) (start : Nat)
    (slots : List Slot) :
    decodeFrom values start bs (slot :: slots) = (values, .error (.truncated slot.name)) := by
  rw [decodeFrom, Slot.decode, h]

theorem decodeFrom_cons_of_decode {slot : Slot} {bs rest : List UInt8} {value : Value}
    (h : decode slot.type bs = .ok (value, rest)) (values : SlotMap) (start : Nat)
    (slots : List Slot) :
    decodeFrom values start bs (slot :: slots) =
      decodeFrom (values.insert start value) (start + 1) rest slots := by
  rw [decodeFrom, Slot.decode, h]

/-! ### No bytes left -/

/-- What comes of the slots that are left where the bytes are at their end. -/
def outcomeAtEnd (slots : List Slot) : Except ReadError (List UInt8) :=
  match slots.find? fun slot ↦ needsBytes slot.type with
  | some slot => .error (.truncated slot.name)
  | none => .ok []

theorem outcomeAtEnd_cons_of_needsBytes {slot : Slot} (h : needsBytes slot.type = true)
    (slots : List Slot) : outcomeAtEnd (slot :: slots) = .error (.truncated slot.name) := by
  simp [outcomeAtEnd, h]

theorem outcomeAtEnd_cons_of_not_needsBytes {slot : Slot} (h : needsBytes slot.type = false)
    (slots : List Slot) : outcomeAtEnd (slot :: slots) = outcomeAtEnd slots := by
  simp [outcomeAtEnd, h]

theorem decodeFrom_nil {slots : List Slot} (hknown : ∀ slot ∈ slots, slot.type.isKnown = true)
    (values : SlotMap) (start : Nat) :
    (decodeFrom values start [] slots).2 = outcomeAtEnd slots := by
  induction slots generalizing values start with
  | nil => rfl
  | cons slot slots ih =>
    obtain ⟨hslot, hslots⟩ := List.forall_mem_cons.mp hknown
    cases hneeds : needsBytes slot.type with
    | true =>
      rw [decodeFrom_cons_of_truncated (decode_nil_of_needsBytes hslot hneeds),
        outcomeAtEnd_cons_of_needsBytes hneeds]
    | false =>
      obtain ⟨value, hvalue⟩ := decode_nil_of_not_needsBytes hneeds
      rw [decodeFrom_cons_of_decode hvalue, outcomeAtEnd_cons_of_not_needsBytes hneeds]
      exact ih hslots _ _

/-! ### All slots -/

/-- Whether the bytes of the slots up to the one at `index`, and its own, lie in front of the
break. -/
def Inside (values : SlotMap) (start : Nat) (slots : List Slot) (front : List UInt8) (index : Nat) :
    Prop :=
  ∃ written, encodeFrom values start (slots.take (index + 1)) = .ok written ∧ written <+: front

theorem isKnown_of_image {type : SlotType} {value : Value} {bs : List UInt8}
    (h : Image type value bs) : type.isKnown = true := by
  cases h <;> rfl

theorem image_unique {type : SlotType} {value : Value} {bs other : List UInt8}
    (h : Image type value bs) (hother : Image type value other) : bs = other :=
  Except.ok.inj ((encode_of_image h).symm.trans (encode_of_image hother))

theorem isKnown_of_encodeFrom {values : SlotMap} {start : Nat} {slots : List Slot}
    {bs : List UInt8} (h : encodeFrom values start slots = .ok bs) :
    ∀ slot ∈ slots, slot.type.isKnown = true := by
  induction slots generalizing start bs with
  | nil => simp
  | cons slot slots ih =>
    obtain ⟨value, head, tail, _, hhead, htail, _⟩ := encodeFrom_cons_eq_ok_iff.mp h
    exact List.forall_mem_cons.mpr ⟨isKnown_of_image hhead, ih htail⟩

section Cons

variable {values : SlotMap} {start : Nat} {slot : Slot} {slots : List Slot} {value : Value}
  {head : List UInt8}

theorem inside_zero_iff (hvalue : values[start]? = some value) (hhead : Image slot.type value head)
    (front : List UInt8) : Inside values start (slot :: slots) front 0 ↔ head <+: front := by
  have hfirst : encodeFrom values start ((slot :: slots).take 1) = .ok head :=
    encodeFrom_cons_eq_ok_iff.mpr ⟨value, head, [], hvalue, hhead, rfl, (List.append_nil _).symm⟩
  constructor
  · rintro ⟨written, hwritten, hfront⟩
    obtain rfl := Except.ok.inj (hwritten.symm.trans hfirst)
    exact hfront
  · exact fun hfront ↦ ⟨head, hfirst, hfront⟩

theorem inside_succ_iff (hvalue : values[start]? = some value) (hhead : Image slot.type value head)
    (front : List UInt8) (index : Nat) :
    Inside values start (slot :: slots) (head ++ front) (index + 1) ↔
      Inside values (start + 1) slots front index := by
  unfold Inside
  rw [List.take_succ_cons]
  constructor
  · rintro ⟨written, hwritten, hfront⟩
    obtain ⟨other, first, tail, hother, hfirst, htail, rfl⟩ := encodeFrom_cons_eq_ok_iff.mp hwritten
    obtain rfl := Option.some.inj (hvalue.symm.trans hother)
    obtain rfl := image_unique hhead hfirst
    exact ⟨tail, htail, (List.prefix_append_right_inj head).mp hfront⟩
  · rintro ⟨tail, htail, hfront⟩
    exact ⟨head ++ tail,
      encodeFrom_cons_eq_ok_iff.mpr ⟨value, head, tail, hvalue, hhead, htail, rfl⟩,
      (List.prefix_append_right_inj head).mpr hfront⟩

end Cons

/-- Where written bytes break off there is a first slot that does not lie in front of the break. The
slots before it are read as from all the bytes, and it and the slots after it come to what they come
to without bytes. -/
theorem decodeFrom_of_isPrefix {values : SlotMap} {start : Nat} {slots : List Slot}
    {bs front : List UInt8} (h : encodeFrom values start slots = .ok bs) (hfront : front <+: bs)
    (hne : front ≠ bs) (before : SlotMap) :
    ∃ broken, broken < slots.length ∧ (∀ index < broken, Inside values start slots front index) ∧
      ¬ Inside values start slots front broken ∧
      (∀ index < broken, ∃ value,
        (decodeFrom before start front slots).1[start + index]? = some value ∧
          (decodeFrom before start bs slots).1[start + index]? = some value) ∧
      (decodeFrom before start front slots).2 = outcomeAtEnd (slots.drop broken) := by
  induction slots generalizing start bs front before with
  | nil =>
    obtain rfl : [] = bs := Except.ok.inj h
    exact absurd (List.prefix_nil.mp hfront) hne
  | cons slot slots ih =>
    obtain ⟨value, head, tail, hvalue, hhead, htail, rfl⟩ := encodeFrom_cons_eq_ok_iff.mp h
    by_cases hinside : head <+: front
    · obtain ⟨more, rfl⟩ := hinside
      have hmore : more <+: tail := (List.prefix_append_right_inj head).mp hfront
      have htailne : more ≠ tail := fun hsame ↦ hne (hsame ▸ rfl)
      obtain ⟨broken, hlt, hbefore, hbroken, hvalues, houtcome⟩ :=
        ih htail hmore htailne (before.insert start (stored slot.type value))
      rw [decodeFrom_cons_of_reads (reads_of_image hhead more),
        decodeFrom_cons_of_reads (reads_of_image hhead tail)]
      refine ⟨broken + 1, Nat.succ_lt_succ hlt, ?_, ?_, ?_, houtcome⟩
      · intro index hindex
        cases index with
        | zero => exact (inside_zero_iff hvalue hhead _).mpr (List.prefix_append head more)
        | succ index =>
          exact (inside_succ_iff hvalue hhead more index).mpr
            (hbefore index (Nat.lt_of_succ_lt_succ hindex))
      · exact fun hin ↦ hbroken ((inside_succ_iff hvalue hhead more broken).mp hin)
      · intro index hindex
        cases index with
        | zero =>
          exact ⟨_, getElem?_decodeFrom_insert_self before start _ more slots,
            getElem?_decodeFrom_insert_self before start _ tail slots⟩
        | succ index =>
          have hshift : start + (index + 1) = start + 1 + index := by omega
          rw [hshift]
          exact hvalues index (Nat.lt_of_succ_lt_succ hindex)
    · have hshort : front <+: head :=
        (List.prefix_or_prefix_of_prefix hfront (List.prefix_append head tail)).resolve_right
          hinside
      have hshortne : front ≠ head := fun hsame ↦ hinside (hsame ▸ List.prefix_refl _)
      refine ⟨0, Nat.succ_pos _, by simp, ?_, by simp, ?_⟩
      · rwa [inside_zero_iff hvalue hhead]
      · have hknown := isKnown_of_encodeFrom htail
        rcases decode_of_isPrefix (reads_of_image hhead tail) hshort hshortne with
          ⟨hneeds, hcut⟩ | ⟨hneeds, short, hcut⟩
        · rw [decodeFrom_cons_of_truncated hcut, List.drop_zero,
            outcomeAtEnd_cons_of_needsBytes hneeds]
        · rw [decodeFrom_cons_of_decode hcut, List.drop_zero,
            outcomeAtEnd_cons_of_not_needsBytes hneeds]
          exact decodeFrom_nil hknown _ _

/-- Bytes of a template that break off early have a first slot that does not lie in front of the
break. The slots before it are read as from all the bytes. The rest is read only where every slot
from it on is a terminated text or a fixed one of no width, and else the first that is neither is
reported as truncated. -/
theorem decode_of_proper_prefix {template : Template} {values : SlotMap} {bs front : List UInt8}
    (h : template.encode values = .ok bs) (hfront : front <+: bs) (hne : front ≠ bs) :
    ∃ broken, broken < template.size ∧
      (∀ index < broken, Inside values 0 template.slots front index) ∧
      ¬ Inside values 0 template.slots front broken ∧
      (∀ index < broken, ∃ value, (template.decode ∅ front).1[index]? = some value ∧
        (template.decode ∅ bs).1[index]? = some value) ∧
      ((∃ rest, (template.decode ∅ front).2 = .ok rest) ↔
        ∀ slot ∈ template.slots.drop broken, slot.type = .terminated ∨ slot.type = .fixed 0) ∧
      ∀ error, (template.decode ∅ front).2 = .error error →
        ∃ slot, (template.slots.drop broken).find? (fun slot ↦ needsBytes slot.type) = some slot ∧
          error = .truncated slot.name := by
  obtain ⟨broken, hlt, hbefore, hbroken, hvalues, houtcome⟩ := decodeFrom_of_isPrefix h hfront hne ∅
  simp only [Nat.zero_add] at hvalues
  have hdecode : (template.decode ∅ front).2 = outcomeAtEnd (template.slots.drop broken) := houtcome
  refine ⟨broken, hlt, hbefore, hbroken, hvalues, ?_, ?_⟩
  · simp only [← needsBytes_eq_false_iff]
    rw [hdecode, outcomeAtEnd]
    cases hfind : (template.slots.drop broken).find? fun slot ↦ needsBytes slot.type with
    | none =>
      have hnone := List.find?_eq_none.mp hfind
      exact iff_of_true ⟨[], rfl⟩ fun slot hslot ↦ Bool.eq_false_iff.mpr (hnone slot hslot)
    | some slot =>
      refine iff_of_false (by simp) fun hall ↦ ?_
      have hneeds := List.find?_some hfind
      rw [hall slot (List.mem_of_find?_eq_some hfind)] at hneeds
      cases hneeds
  · intro error herror
    rw [hdecode, outcomeAtEnd] at herror
    split at herror
    · rename_i slot hfind
      exact ⟨slot, hfind, (Except.error.inj herror).symm⟩
    · cases herror

/-- The bytes of a cargo, up to the middle of the one character of its note. -/
def brokenBytes : List UInt8 := [0xFE, 0xD4, 0x61, 0xC3, 0xA9, 0, 0xC3]

/-- The note takes the stray byte and the seal is missing. -/
theorem decode_of_proper_prefix_brokenBytes :
    cargo.encode cargoValues = .ok (brokenBytes ++ [0xA9, 0, 1, 7]) ∧
      brokenBytes <+: brokenBytes ++ [0xA9, 0, 1, 7] ∧
        brokenBytes ≠ brokenBytes ++ [0xA9, 0, 1, 7] ∧
      ∃ broken, broken < cargo.size ∧
        (∀ index < broken, Inside cargoValues 0 cargo.slots brokenBytes index) ∧
        ¬ Inside cargoValues 0 cargo.slots brokenBytes broken ∧
        (∀ index < broken, ∃ value, (cargo.decode ∅ brokenBytes).1[index]? = some value ∧
          (cargo.decode ∅ (brokenBytes ++ [0xA9, 0, 1, 7])).1[index]? = some value) ∧
        ((∃ rest, (cargo.decode ∅ brokenBytes).2 = .ok rest) ↔
          ∀ slot ∈ cargo.slots.drop broken, slot.type = .terminated ∨ slot.type = .fixed 0) ∧
        ∀ error, (cargo.decode ∅ brokenBytes).2 = .error error →
          ∃ slot, (cargo.slots.drop broken).find? (fun slot ↦ needsBytes slot.type) = some slot ∧
            error = .truncated slot.name :=
  ⟨rfl, List.prefix_append _ _, by decide,
    decode_of_proper_prefix rfl (List.prefix_append _ _) (by decide)⟩

end ResourceLang.Proofs.TruncatedBytes
