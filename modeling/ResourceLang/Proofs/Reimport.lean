import ResourceLang.Proofs.TemplateRoundTrip

/-!
Bytes read into the slots of a template and written again. Every value that reading gives can be
written. The bytes come back unchanged exactly when reading lost nothing in any slot and left
nothing over, and what comes back is canonical: reading and writing it once more changes nothing.
-/

set_option autoImplicit false
set_option relaxedAutoImplicit false

namespace ResourceLang.Proofs.Reimport

open Text Layout Template Utf8Reading SlotImage TemplateRoundTrip

/-! ### The bytes of each slot -/

/-- How many bytes a slot of the type takes where it begins, as long as there are so many. -/
def extent : SlotType → List UInt8 → Nat
  | .pascal, bs => bs.head?.elim 0 fun count ↦ count.toNat + 1
  | .hexData, bs => bs.head?.elim 0 fun count ↦ count.toNat + 1
  | .terminated, bs => (bs.takeWhile (· ≠ 0)).length + 1
  | type, _ => type.width

/-- The slots' types, each with the bytes that its slot takes; a slot begins where the one before it
ends. -/
def regions : List Slot → List UInt8 → List (SlotType × List UInt8)
  | [], _ => []
  | slot :: slots, bs =>
    (slot.type, bs.take (extent slot.type bs)) :: regions slots (bs.drop (extent slot.type bs))

/-- The bytes of a slot that reading loses nothing of: its text is well-formed UTF-8 and ends at a
NUL where the type asks for one, with nothing but NULs in the room left over. -/
def Lossless : SlotType → List UInt8 → Prop
  | .pascal, taken => WellFormed (taken.drop 1)
  | .fixed width, taken =>
    0 < width → 0 ∈ taken ∧ WellFormed (taken.takeWhile (· ≠ 0)) ∧
      ∀ b ∈ taken.dropWhile (· ≠ 0), b = 0
  | .terminated, taken => 0 ∈ taken ∧ WellFormed (taken.takeWhile (· ≠ 0))
  | _, _ => True

theorem lossless_terminated (taken : List UInt8) :
    Lossless .terminated taken ↔ 0 ∈ taken ∧ WellFormed (taken.takeWhile (· ≠ 0)) := Iff.rfl

theorem extent_of_reads {type : SlotType} {taken rest : List UInt8} {value : Value}
    (h : Reads type taken rest value) :
    (taken ++ rest).take (extent type (taken ++ rest)) = taken ∧
      (taken ++ rest).drop (extent type (taken ++ rest)) = rest := by
  have hexact {type : SlotType} {taken rest : List UInt8}
      (hlength : extent type (taken ++ rest) = taken.length) :
      (taken ++ rest).take (extent type (taken ++ rest)) = taken ∧
        (taken ++ rest).drop (extent type (taken ++ rest)) = rest := by
    rw [hlength]
    exact ⟨List.take_left, List.drop_left⟩
  have hcounted {body : List UInt8} (hlength : body.length < 256) :
      (UInt8.ofNat body.length).toNat + 1 = (counted body).length := by
    rw [UInt8.toNat_ofNat_of_lt' hlength]
    rfl
  cases h with
  | unsigned rest hlength => exact hexact hlength.symm
  | signed rest hlength => exact hexact hlength.symm
  | rect rest hlength => exact hexact hlength.symm
  | pascal rest hlength => exact hexact (hcounted hlength)
  | hexData rest hlength => exact hexact (hcounted hlength)
  | fixed rest hlength => exact hexact hlength.symm
  | @terminated body rest hbody =>
    refine hexact ?_
    rw [extent, List.append_assoc, List.singleton_append, takeWhile_append_zero hbody,
      List.length_append, List.length_singleton]
  | unterminated hbody =>
    rw [List.append_nil, extent, takeWhile_of_zero_not_mem hbody]
    exact ⟨List.take_of_length_le (Nat.le_succ _), List.drop_of_length_le (Nat.le_succ _)⟩

/-- Well-formed bytes within the room of a slot are written as they were read. -/
theorem encode_kept_lossy {type : SlotType} {body : List UInt8} (h : WellFormed body)
    (hkept : ∀ cs, Utf8.size cs = body.length → kept type cs = cs) :
    Utf8.encode (kept type (Utf8.lossy body).toList) = body := by
  obtain ⟨cs, rfl⟩ := h
  rw [lossy_encode, String.toList_ofList, hkept cs (Utf8.length_encode cs).symm]

theorem length_takeWhile_lt {bs : List UInt8} (h : 0 ∈ bs) :
    (bs.takeWhile (· ≠ 0)).length < bs.length := by
  refine lt_of_le_of_ne (List.takeWhile_prefix _).length_le fun hlength ↦ ?_
  have hall := (List.takeWhile_prefix (fun b : UInt8 ↦ decide (b ≠ 0))).eq_of_length hlength
  rw [← hall] at h
  exact zero_not_mem_takeWhile bs h

theorem rightpad_takeWhile {bs : List UInt8} (h : ∀ b ∈ bs.dropWhile (· ≠ 0), b = 0) :
    (bs.takeWhile (· ≠ 0)).rightpad bs.length 0 = bs := by
  have hlength := congrArg List.length
    (List.takeWhile_append_dropWhile (p := fun b : UInt8 ↦ decide (b ≠ 0)) (l := bs))
  rw [List.length_append] at hlength
  have hpad : bs.dropWhile (· ≠ 0) =
      List.replicate (bs.length - (bs.takeWhile (· ≠ 0)).length) 0 :=
    List.eq_replicate_iff.mpr ⟨by omega, h⟩
  rw [List.rightpad, ← hpad]
  exact List.takeWhile_append_dropWhile

theorem dropWhile_rightpad {body : List UInt8} (h : 0 ∉ body) (width : Nat) :
    ∀ b ∈ (body.rightpad width 0).dropWhile (· ≠ 0), b = 0 := by
  intro b hb
  rw [List.rightpad, List.dropWhile_append_of_pos (decide_ne_zero h)] at hb
  exact List.eq_of_mem_replicate (List.dropWhile_subset _ hb)

theorem image_fixed_eq_iff {width : UInt16} {taken written : List UInt8} {hint : Nat}
    (hlength : taken.length = width.toNat)
    (h : Image (.fixed width) (.string (Utf8.lossy (taken.takeWhile (· ≠ 0))) hint) written) :
    written = taken ↔ Lossless (.fixed width) taken := by
  cases h with
  | fixed _ _ _ hnul =>
    have hroom := length_encode_kept_fixed width (Utf8.lossy (taken.takeWhile (· ≠ 0))).toList
    constructor
    · have hzero : 0 ∉ Utf8.encode (kept (.fixed width)
          (Utf8.lossy (taken.takeWhile (· ≠ 0))).toList) :=
        mt zero_mem_encode.mp (nul_not_mem_kept hnul)
      have hwell : WellFormed (Utf8.encode (kept (.fixed width)
          (Utf8.lossy (taken.takeWhile (· ≠ 0))).toList)) := ⟨_, rfl⟩
      -- From here on it matters only that the text fits, is well formed and holds no zero.
      revert hroom hzero hwell
      generalize Utf8.encode (kept (.fixed width)
        (Utf8.lossy (taken.takeWhile (· ≠ 0))).toList) = body
      rintro hroom hzero hwell rfl hpos
      have hpad : 0 < width.toNat := hpos
      refine ⟨?_, ?_, dropWhile_rightpad hzero width.toNat⟩
      · exact List.mem_append_right body (List.mem_replicate.mpr ⟨by omega, rfl⟩)
      · rwa [takeWhile_rightpad hzero]
    · intro hlossless
      rcases Nat.eq_zero_or_pos width.toNat with hwidth | hpos
      · have hnone := List.eq_nil_of_length_eq_zero (hlength.trans hwidth)
        refine Eq.trans (List.eq_nil_of_length_eq_zero ?_) hnone.symm
        rw [List.length_rightpad]
        omega
      · obtain ⟨hmem, hwell, hpad⟩ := hlossless hpos
        have hshort := length_takeWhile_lt hmem
        have hkept (cs : List Char) (hcs : Utf8.size cs = (taken.takeWhile (· ≠ 0)).length) :
            kept (.fixed width) cs = cs :=
          prefixWithin_of_size_le (by omega)
        rw [encode_kept_lossy hwell hkept, ← hlength]
        exact rightpad_takeWhile hpad

/-- A slot comes back as it was exactly when reading it lost nothing. -/
theorem image_eq_iff {type : SlotType} {taken rest written : List UInt8} {value : Value}
    (hreads : Reads type taken rest value) (himage : Image type value written) :
    written = taken ↔ Lossless type taken := by
  cases hreads with
  | unsigned rest hlength =>
    cases himage
    exact iff_of_true (bigEndian_ofNat_ofBigEndian hlength) trivial
  | signed rest hlength =>
    cases himage
    exact iff_of_true (bigEndian_ofNat_ofBigEndian hlength) trivial
  | rect rest hlength =>
    cases himage
    exact iff_of_true (bytesOfRect_rectOfBytes hlength) trivial
  | @pascal body rest hlength =>
    cases himage
    constructor
    · intro h
      exact ⟨_, (List.cons.inj h).2⟩
    · intro hlossless
      have hwell : WellFormed body := hlossless
      have hkept (cs : List Char) (hcs : Utf8.size cs = body.length) : kept .pascal cs = cs :=
        prefixWithin_of_size_le (Nat.le_of_lt_succ (hcs ▸ hlength))
      rw [encode_kept_lossy hwell hkept]
  | hexData rest hlength =>
    cases himage
    refine iff_of_true ?_ trivial
    rw [List.take_of_length_le (show _ ≤ maxCounted from Nat.le_of_lt_succ hlength)]
  | fixed rest hlength => exact image_fixed_eq_iff hlength himage
  | @terminated body rest hbody =>
    cases himage
    rw [List.append_cancel_right_eq, lossless_terminated, takeWhile_append_zero hbody]
    constructor
    · intro h
      exact ⟨List.mem_append_right body List.mem_cons_self, _, h⟩
    · rintro ⟨_, hwell⟩
      exact @encode_kept_lossy .terminated body hwell fun _ _ ↦ rfl
  | unterminated hbody =>
    cases himage
    refine iff_of_false ?_ fun h ↦ hbody h.1
    intro h
    exact hbody (h ▸ List.mem_append_right _ List.mem_cons_self)

/-! ### All slots -/

theorem decodeFrom_cons_eq_ok {before after : SlotMap} {start : Nat} {bs rest : List UInt8}
    {slot : Slot} {slots : List Slot}
    (h : decodeFrom before start bs (slot :: slots) = (after, .ok rest)) :
    ∃ value taken middle, bs = taken ++ middle ∧ Reads slot.type taken middle value ∧
      decodeFrom (before.insert start value) (start + 1) middle slots = (after, .ok rest) := by
  rw [decodeFrom] at h
  split at h
  · simp at h
  · rename_i value middle hslot
    obtain ⟨taken, hbs, hreads⟩ := slot_decode_eq_ok_iff.mp hslot
    exact ⟨value, taken, middle, hbs, hreads, h⟩

theorem regions_cons_of_reads {slot : Slot} {taken rest : List UInt8} {value : Value}
    (h : Reads slot.type taken rest value) (slots : List Slot) :
    regions (slot :: slots) (taken ++ rest) = (slot.type, taken) :: regions slots rest := by
  rw [regions, (extent_of_reads h).1, (extent_of_reads h).2]

theorem regions_append_of_decodeFrom {before after : SlotMap} {start : Nat}
    {bs rest : List UInt8} {slots : List Slot}
    (h : decodeFrom before start bs slots = (after, .ok rest)) :
    (regions slots bs).flatMap Prod.snd ++ rest = bs := by
  induction slots generalizing before start bs with
  | nil =>
    obtain ⟨_, hrest⟩ := Prod.mk.inj h
    injection hrest with hrest
    rw [← hrest]
    rfl
  | cons slot slots ih =>
    obtain ⟨value, taken, middle, rfl, hreads, htail⟩ := decodeFrom_cons_eq_ok h
    rw [regions_cons_of_reads hreads, List.flatMap_cons, List.append_assoc, ih htail]

/-- Every slot that was read can be written again. The bytes written, followed by any others, are
the bytes read only slot by slot: what the first slot is written as is where reading it again would
stop. -/
theorem encodeFrom_decodeFrom {before after : SlotMap} {start : Nat} {bs rest : List UInt8}
    {slots : List Slot} (h : decodeFrom before start bs slots = (after, .ok rest)) :
    ∃ written, encodeFrom after start slots = .ok written ∧
      ∀ tail, written ++ tail = bs ↔
        tail = rest ∧ ∀ region ∈ regions slots bs, Lossless region.1 region.2 := by
  induction slots generalizing before start bs with
  | nil =>
    obtain ⟨_, hrest⟩ := Prod.mk.inj h
    injection hrest with hrest
    subst hrest
    exact ⟨[], rfl, fun tail ↦ by simp [regions]⟩
  | cons slot slots ih =>
    obtain ⟨value, taken, middle, rfl, hreads, hdecode⟩ := decodeFrom_cons_eq_ok h
    obtain ⟨front, himage⟩ := image_of_reads hreads
    obtain ⟨written, hwritten, htail⟩ := ih hdecode
    have hvalue : after[start]? = some value := by
      have hkeep := getElem?_decodeFrom_insert_self before start value middle slots
      rwa [hdecode] at hkeep
    refine ⟨front ++ written,
      encodeFrom_cons_eq_ok_iff.mpr ⟨value, front, written, hvalue, himage, hwritten, rfl⟩, ?_⟩
    intro tail
    rw [regions_cons_of_reads hreads, List.forall_mem_cons, and_left_comm, ← htail tail,
      ← image_eq_iff hreads himage, List.append_assoc]
    constructor
    · intro hsame
      -- Both sides begin with a slot of this type, and reading stops where it ends on either.
      have hagain := decode_of_reads (reads_of_image himage (written ++ tail))
      rw [hsame, decode_of_reads hreads] at hagain
      injection hagain with hagain
      have hmiddle := (Prod.mk.inj hagain).2
      rw [hmiddle] at hsame ⊢
      exact ⟨List.append_cancel_right hsame, rfl⟩
    · rintro ⟨rfl, rfl⟩
      rfl

theorem encodeFrom_of_stored {values after : SlotMap} {start : Nat} {slots : List Slot}
    {bs : List UInt8} (h : encodeFrom values start slots = .ok bs)
    (hafter : ∀ index slot value, slots[index]? = some slot → values[start + index]? = some value →
      after[start + index]? = some (stored slot.type value)) :
    encodeFrom after start slots = .ok bs := by
  induction slots generalizing start bs with
  | nil => exact h
  | cons slot slots ih =>
    obtain ⟨value, front, tail, hvalue, himage, htail, rfl⟩ := encodeFrom_cons_eq_ok_iff.mp h
    have hrest : encodeFrom after (start + 1) slots = .ok tail := by
      refine ih htail fun index other value hother hvalue ↦ ?_
      have hindex : start + 1 + index = start + (index + 1) := by omega
      rw [hindex] at hvalue ⊢
      exact hafter (index + 1) other value hother hvalue
    exact encodeFrom_cons_eq_ok_iff.mpr
      ⟨stored slot.type value, front, tail, hafter 0 slot value rfl hvalue, image_stored himage,
        hrest, rfl⟩

/-- Bytes that fill a template can be written again. They come back unchanged exactly when nothing
is left over and no slot lost anything in reading; and what comes back is read and written without
any change. -/
theorem encode_decode_eq_iff {template : Template} {values : SlotMap} {bs rest : List UInt8}
    (h : template.decode ∅ bs = (values, .ok rest)) :
    ∃ written, template.encode values = .ok written ∧
      (regions template.slots bs).flatMap Prod.snd ++ rest = bs ∧
      (written = bs ↔
        rest = [] ∧ ∀ region ∈ regions template.slots bs, Lossless region.1 region.2) ∧
      ∃ again, template.decode ∅ written = (again, .ok []) ∧
        template.encode again = .ok written := by
  obtain ⟨written, hwritten, htail⟩ := encodeFrom_decodeFrom h
  have hsame := htail []
  rw [List.append_nil, eq_comm (a := [])] at hsame
  obtain ⟨again, hagain, hslots⟩ := decodeFrom_encodeFrom hwritten ∅ []
  rw [List.append_nil] at hagain
  refine ⟨written, hwritten, regions_append_of_decodeFrom h, hsame, again, hagain, ?_⟩
  refine encodeFrom_of_stored hwritten fun index slot value hslot hvalue ↦ ?_
  obtain ⟨_, _, hother, _, hkept⟩ := hslots index slot hslot
  rw [hvalue] at hother
  injection hother with hother
  rwa [← hother] at hkept

/-- Bytes of a cargo: a fixed text that breaks off inside a character, with a stray byte behind its
NUL, and one byte too many at the end. -/
def wornBytes : List UInt8 := [0, 9, 0x61, 0xC3, 0, 0x62, 0x63, 0, 1, 7, 5]

def wornValues : SlotMap :=
  .ofList [(0, Value.signed .word 9), (1, .string "a\uFFFD" 4), (2, .string "c" 0), (3, .bytes [7])]

theorem decode_wornBytes : cargo.decode ∅ wornBytes = (wornValues, .ok [5]) := by decide +kernel

theorem encode_decode_eq_iff_wornBytes :
    cargo.decode ∅ wornBytes = (wornValues, .ok [5]) ∧
      ∃ written, cargo.encode wornValues = .ok written ∧
        (regions cargo.slots wornBytes).flatMap Prod.snd ++ [5] = wornBytes ∧
        (written = wornBytes ↔ ([5] : List UInt8) = [] ∧
          ∀ region ∈ regions cargo.slots wornBytes, Lossless region.1 region.2) ∧
        ∃ again, cargo.decode ∅ written = (again, .ok []) ∧ cargo.encode again = .ok written :=
  ⟨decode_wornBytes, encode_decode_eq_iff decode_wornBytes⟩

end ResourceLang.Proofs.Reimport
