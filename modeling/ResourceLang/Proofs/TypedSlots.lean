import ResourceLang.Proofs.TemplateRoundTrip
import ResourceLang.Resource.Declared
import ResourceLang.Resource.Store

/-!
Resources whose values fit. Whatever is called on a resource, in whatever order and whether it fails
or not, every value stays where a slot is, and of the form that the type of the slot has room for.
So writing the slots out can fail for want of a value only.
-/

set_option autoImplicit false
set_option relaxedAutoImplicit false

namespace ResourceLang.Proofs.TypedSlots

open Layout SlotImage TemplateRoundTrip

open Template (encodeFrom decodeFrom)

/-! ### Literals -/

theorem unsigned_of_literal {width : Width} {lexeme : Lexeme} {value : Value}
    (h : Literal.unsigned width lexeme = .ok value) : ∃ word, value = .unsigned width word := by
  unfold Literal.unsigned at h
  split at h
  · split at h
    · exact ⟨_, (Except.ok.inj h).symm⟩
    · cases h
  · split at h <;> cases h

theorem signed_of_literal {width : Width} {lexeme : Lexeme} {value : Value}
    (h : Literal.signed width lexeme = .ok value) : ∃ word, value = .signed width word := by
  unfold Literal.signed at h
  split at h
  · exact ⟨_, (Except.ok.inj h).symm⟩
  · cases h

theorem bytes_of_literal {lexeme : Lexeme} {value : Value}
    (h : Literal.hexData lexeme = .ok value) : ∃ data, value = .bytes data := by
  unfold Literal.hexData at h
  split at h
  · exact ⟨_, (Except.ok.inj h).symm⟩
  · cases h

theorem string_of_literal {type : SlotType} {lexeme : Lexeme} {value : Value}
    (h : Literal.text type lexeme = .ok value) :
    (type.endsAtNul = true → '\x00' ∉ lexeme.text.toList) ∧
      ∃ hint, value = .string lexeme.text hint := by
  unfold Literal.text at h
  split at h
  · cases h
  · rename_i hnul
    exact ⟨fun hends hmem ↦ hnul ⟨hends, hmem⟩, _, (Except.ok.inj h).symm⟩

/-- What a literal means in a slot can be written there. -/
theorem image_of_toValue {type : SlotType} {lexeme : Lexeme} {value : Value}
    (h : Literal.toValue type lexeme = .ok value) : ∃ bs, Image type value bs := by
  cases type <;> simp only [Literal.toValue] at h
  case unsigned width =>
    split at h
    · obtain ⟨word, rfl⟩ := unsigned_of_literal h
      exact ⟨_, .unsigned width word⟩
    · cases h
  case signed width =>
    split at h
    · obtain ⟨word, rfl⟩ := signed_of_literal h
      exact ⟨_, .signed width word⟩
    · cases h
  case rect => cases h
  case pascal =>
    split at h
    · obtain ⟨_, hint, rfl⟩ := string_of_literal h
      exact ⟨_, .pascal lexeme.text hint⟩
    · cases h
  case fixed width =>
    split at h
    · obtain ⟨hnul, hint, rfl⟩ := string_of_literal h
      exact ⟨_, .fixed width lexeme.text hint (hnul rfl)⟩
    · cases h
  case terminated =>
    split at h
    · obtain ⟨hnul, hint, rfl⟩ := string_of_literal h
      exact ⟨_, .terminated lexeme.text hint (hnul rfl)⟩
    · cases h
  case hexData =>
    obtain ⟨data, rfl⟩ := bytes_of_literal h
    exact ⟨_, .hexData data⟩
  case invalid => cases h

/-! ### Typed resources -/

/-- Every value is at the index of a slot, and can be written there. -/
def Typed (resource : Resource) : Prop :=
  ∀ index value, resource.valueAt? index = some value →
    ∃ slot bs, resource.template.get? index = some slot ∧ Image slot.type value bs

theorem typed_blank (template : Template) (code : String) (id : Int) (name : String) :
    Typed (.blank template code id name) := by
  intro index value hvalue
  simp [Resource.blank, Resource.valueAt?] at hvalue

/-- What every call keeps, whatever it writes. -/
structure Keeps (before after : Resource) : Prop where
  template : after.template = before.template
  typed : Typed before → Typed after

theorem Keeps.refl (resource : Resource) : Keeps resource resource := ⟨rfl, id⟩

theorem Keeps.trans {first middle last : Resource} (hfirst : Keeps first middle)
    (hlast : Keeps middle last) : Keeps first last :=
  ⟨hlast.template.trans hfirst.template, hlast.typed ∘ hfirst.typed⟩

theorem valueAt?_setAt (resource : Resource) (index other : Nat) (value : Value) :
    (resource.setAt index value).valueAt? other =
      if index = other then some value else resource.valueAt? other := by
  unfold Resource.setAt Resource.valueAt?
  rw [Std.ExtTreeMap.getElem?_insert]
  simp only [Std.compare_eq_iff_eq]

theorem valueAt?_setAt_self (resource : Resource) (index : Nat) (value : Value) :
    (resource.setAt index value).valueAt? index = some value := by
  rw [valueAt?_setAt, if_pos rfl]

theorem valueAt?_setAt_of_ne {index other : Nat} (h : index ≠ other) (resource : Resource)
    (value : Value) :
    (resource.setAt index value).valueAt? other = resource.valueAt? other := by
  rw [valueAt?_setAt, if_neg h]

theorem keeps_setAt (resource : Resource) {index : Nat} {slot : Slot} {value : Value}
    {bs : List UInt8} (hslot : resource.template.get? index = some slot)
    (himage : Image slot.type value bs) : Keeps resource (resource.setAt index value) := by
  refine ⟨rfl, fun htyped other stored hstored ↦ ?_⟩
  rw [valueAt?_setAt] at hstored
  split at hstored
  · rename_i hsame
    obtain rfl := Option.some.inj hstored
    exact ⟨slot, bs, hsame ▸ hslot, himage⟩
  · exact htyped other stored hstored

theorem get?_of_find? {template : Template} {name : String} {index : Nat} {slot : Slot}
    (h : template.find? name = some (index, slot)) : template.get? index = some slot := by
  unfold Template.find? at h
  obtain ⟨place, _, hplace⟩ := Option.bind_eq_some_iff.mp h
  obtain ⟨found, hfound, hpair⟩ := Option.map_eq_some_iff.mp hplace
  obtain ⟨rfl, rfl⟩ := Prod.mk.inj hpair
  exact hfound

section SetLiteral

variable {resource : Resource} {field : String} {token : Token} {index : Nat} {slot : Slot}

theorem setLiteral_of_find?_eq_none (h : resource.template.find? field = none) :
    resource.setLiteral field token = (resource, .error (.unknownField field)) := by
  rw [Resource.setLiteral, Resource.slotNamed, h]

theorem setLiteral_of_toValue {value : Value}
    (hslot : resource.template.find? field = some (index, slot))
    (h : Literal.toValue slot.type token.lexeme = .ok value) :
    resource.setLiteral field token = (resource.setAt index value, .ok ()) := by
  rw [Resource.setLiteral, Resource.slotNamed, hslot]
  dsimp only
  rw [h]

theorem setLiteral_of_fault {fault : Literal.Fault}
    (hslot : resource.template.find? field = some (index, slot))
    (h : Literal.toValue slot.type token.lexeme = .error fault) :
    resource.setLiteral field token =
      (resource, .error (fault.toError field slot.type token.lexeme)) := by
  rw [Resource.setLiteral, Resource.slotNamed, hslot]
  dsimp only
  rw [h]

/-- A literal is stored at the slot of the name as its value there, or the resource is left as it
was. -/
theorem setLiteral_stores_or_stays (resource : Resource) (field : String) (token : Token) :
    (∃ index slot value, resource.template.find? field = some (index, slot) ∧
        Literal.toValue slot.type token.lexeme = .ok value ∧
          resource.setLiteral field token = (resource.setAt index value, .ok ())) ∨
      ∃ error, resource.setLiteral field token = (resource, .error error) := by
  cases hfind : resource.template.find? field with
  | none => exact .inr ⟨_, setLiteral_of_find?_eq_none hfind⟩
  | some found =>
    obtain ⟨index, slot⟩ := found
    cases hvalue : Literal.toValue slot.type token.lexeme with
    | ok value =>
      exact .inl ⟨index, slot, value, rfl, hvalue, setLiteral_of_toValue hfind hvalue⟩
    | error fault => exact .inr ⟨_, setLiteral_of_fault hfind hvalue⟩

theorem setLiteral_eq_ok_iff {after : Resource}
    (hslot : resource.template.find? field = some (index, slot)) :
    resource.setLiteral field token = (after, .ok ()) ↔
      ∃ value, Literal.toValue slot.type token.lexeme = .ok value ∧
        after = resource.setAt index value := by
  cases hvalue : Literal.toValue slot.type token.lexeme with
  | ok value =>
    rw [setLiteral_of_toValue hslot hvalue]
    simp [eq_comm]
  | error fault =>
    rw [setLiteral_of_fault hslot hvalue]
    simp

/-- A literal without a value in the slot changes nothing. -/
theorem setLiteral_of_forall_ne (hslot : resource.template.find? field = some (index, slot))
    (h : ∀ value, Literal.toValue slot.type token.lexeme ≠ .ok value) :
    ∃ error, resource.setLiteral field token = (resource, .error error) := by
  cases hvalue : Literal.toValue slot.type token.lexeme with
  | ok value => exact absurd hvalue (h value)
  | error fault => exact ⟨_, setLiteral_of_fault hslot hvalue⟩

theorem keeps_setLiteral (resource : Resource) (field : String) (token : Token) :
    Keeps resource (resource.setLiteral field token).1 := by
  rcases setLiteral_stores_or_stays resource field token with
    ⟨index, slot, value, hfind, hvalue, hset⟩ | ⟨error, hset⟩
  · obtain ⟨bs, himage⟩ := image_of_toValue hvalue
    rw [hset]
    exact keeps_setAt resource (get?_of_find? hfind) himage
  · rw [hset]
    exact .refl resource

end SetLiteral

theorem keeps_assignAll (resource : Resource) (assignments : List Assignment) :
    Keeps resource (resource.assignAll assignments).1 := by
  induction assignments generalizing resource with
  | nil => exact .refl resource
  | cons assignment rest ih =>
    rw [Resource.assignAll]
    split
    · exact .refl resource
    · rename_i literal _
      have hkeeps := keeps_setLiteral resource assignment.slot literal
      split <;> rename_i hset <;> rw [hset] at hkeeps
      · exact hkeeps.trans (ih _)
      · exact hkeeps

theorem keeps_setField (resource : Resource) (decl : TypeDecl) (name : Token)
    (literals : List Token) : Keeps resource (resource.setField decl name literals).1 := by
  unfold Resource.setField
  split
  · exact .refl resource
  · split
    · exact .refl resource
    · exact keeps_assignAll resource _

theorem keeps_fillAll (resource : Resource) (count : Nat) (defaults : List (String × Token)) :
    Keeps resource (resource.fillAll count defaults).1 := by
  induction defaults generalizing resource count with
  | nil => exact .refl resource
  | cons entry rest ih =>
    rw [Resource.fillAll]
    split
    · exact ih resource count
    · have hkeeps := keeps_setLiteral resource entry.1 entry.2
      split <;> rename_i hset <;> rw [hset] at hkeeps
      · exact hkeeps.trans (ih _ (count + 1))
      · exact hkeeps

/-- Bytes are read into slots one after another, and what is read can be written again. -/
theorem typed_decodeFrom {values : SlotMap} {start index : Nat} {bs : List UInt8}
    {slots : List Slot} {value : Value}
    (h : (decodeFrom values start bs slots).1[index]? = some value) :
    values[index]? = some value ∨
      ∃ offset slot written, index = start + offset ∧ slots[offset]? = some slot ∧
        Image slot.type value written := by
  induction slots generalizing values start bs with
  | nil => exact .inl h
  | cons slot slots ih =>
    rw [decodeFrom] at h
    split at h
    · exact .inl h
    · rename_i first rest hfirst
      obtain ⟨taken, _, hreads⟩ := slot_decode_eq_ok_iff.mp hfirst
      rcases ih h with hkept | ⟨offset, other, written, rfl, hother, himage⟩
      · rw [Std.ExtTreeMap.getElem?_insert] at hkept
        simp only [Std.compare_eq_iff_eq] at hkept
        split at hkept
        · rename_i hsame
          obtain rfl := Option.some.inj hkept
          obtain ⟨written, himage⟩ := image_of_reads hreads
          exact .inr ⟨0, slot, written, hsame.symm, rfl, himage⟩
        · exact .inl hkept
      · exact .inr ⟨offset + 1, other, written, by omega, hother, himage⟩

theorem keeps_readBytes (resource : Resource) (bs : List UInt8) :
    Keeps resource (resource.readBytes bs).1 := by
  refine ⟨rfl, fun htyped index value hvalue ↦ ?_⟩
  rcases typed_decodeFrom hvalue with hkept | ⟨offset, slot, written, hindex, hslot, himage⟩
  · exact htyped index value hkept
  · rw [Nat.zero_add] at hindex
    exact ⟨slot, written, hindex ▸ hslot, himage⟩

theorem keeps_load (resource : Resource) (store : Store) :
    Keeps resource (resource.load store).1 := by
  unfold Resource.load
  split
  · exact .refl resource
  · exact keeps_readBytes resource _

/-! ### Runs -/

/-- A call that may change the values of a resource. -/
inductive Operation
  | setLiteral (field : String) (token : Token)
  | setField (decl : TypeDecl) (name : Token) (literals : List Token)
  | fillDefaults (decl : TypeDecl)
  | readBytes (bs : List UInt8)
  | load (store : Store)

/-- The resource that a call leaves behind, whatever comes of the call. -/
def perform (resource : Resource) : Operation → Resource
  | .setLiteral field token => (resource.setLiteral field token).1
  | .setField decl name literals => (resource.setField decl name literals).1
  | .fillDefaults decl => (resource.fillDefaults decl).1
  | .readBytes bs => (resource.readBytes bs).1
  | .load store => (resource.load store).1

theorem keeps_perform (resource : Resource) (operation : Operation) :
    Keeps resource (perform resource operation) := by
  cases operation with
  | setLiteral field token => exact keeps_setLiteral resource field token
  | setField decl name literals => exact keeps_setField resource decl name literals
  | fillDefaults decl => exact keeps_fillAll resource 0 _
  | readBytes bs => exact keeps_readBytes resource bs
  | load store => exact keeps_load resource store

/-- Where a resource begins: with a template, or with a declaration that has one. -/
inductive Origin
  | blank (template : Template) (code : String) (id : Int) (name : String)
  | ofDecl (decl : TypeDecl) (id : Int) (name : String)

namespace Origin

def template : Origin → Template
  | blank template _ _ _ => template
  | ofDecl decl _ _ => decl.template

def resource : Origin → Resource
  | blank template code id name => .blank template code id name
  | ofDecl decl id name => .ofDecl decl id name

theorem template_resource (origin : Origin) : origin.resource.template = origin.template := by
  cases origin <;> rfl

theorem typed_resource (origin : Origin) : Typed origin.resource := by
  cases origin <;> exact typed_blank _ _ _ _

end Origin

/-- The resource after some calls. -/
def run (origin : Origin) (operations : List Operation) : Resource :=
  operations.foldl perform origin.resource

theorem keeps_foldl_perform (resource : Resource) (operations : List Operation) :
    Keeps resource (operations.foldl perform resource) := by
  induction operations generalizing resource with
  | nil => exact .refl resource
  | cons operation rest ih => exact (keeps_perform resource operation).trans (ih _)

theorem template_run (origin : Origin) (operations : List Operation) :
    (run origin operations).template = origin.template :=
  (keeps_foldl_perform origin.resource operations).template.trans origin.template_resource

theorem typed_run (origin : Origin) (operations : List Operation) :
    Typed (run origin operations) :=
  (keeps_foldl_perform origin.resource operations).typed origin.typed_resource

/-! ### Writing out what a run left -/

/-- The first slot without a value. -/
structure FirstUnwritten (resource : Resource) (index : Nat) (slot : Slot) : Prop where
  slot : resource.template.get? index = some slot
  unwritten : resource.valueAt? index = none
  written : ∀ earlier < index, ∃ value, resource.valueAt? earlier = some value

theorem FirstUnwritten.unique {resource : Resource} {index other : Nat} {slot found : Slot}
    (h : FirstUnwritten resource index slot) (hother : FirstUnwritten resource other found) :
    slot = found := by
  have hindex : index = other := by
    rcases Nat.lt_trichotomy index other with hlt | hsame | hlt
    · obtain ⟨value, hvalue⟩ := hother.written index hlt
      exact absurd (h.unwritten.symm.trans hvalue) (by simp)
    · exact hsame
    · obtain ⟨value, hvalue⟩ := h.written other hlt
      exact absurd (hother.unwritten.symm.trans hvalue) (by simp)
  exact Option.some.inj (h.slot.symm.trans (hindex ▸ hother.slot))

/-- The bytes of a slot, which may have no value. -/
def bytesAt (slot : Slot) : Option Value → Except WriteError (List UInt8)
  | none => .error (.missingValue slot.name)
  | some value => slot.encode value

theorem encodeFrom_cons (values : SlotMap) (start : Nat) (slot : Slot) (slots : List Slot) :
    encodeFrom values start (slot :: slots) =
      bytesAt slot values[start]? >>= fun front ↦
        encodeFrom values (start + 1) slots >>= fun tail ↦ .ok (front ++ tail) := by
  rw [encodeFrom]
  cases values[start]? <;> rfl

theorem exists_value_of_bytesAt {slot : Slot} {value? : Option Value} {bs : List UInt8}
    (h : bytesAt slot value? = .ok bs) : ∃ value, value? = some value := by
  cases value? with
  | none => cases h
  | some value => exact ⟨value, rfl⟩

/-- Slots in a range have bytes behind a first slot that has them. -/
theorem exists_bytesAt_cons {values : SlotMap} {start : Nat} {slot : Slot} {slots : List Slot}
    {front : List UInt8} (range : Nat → Prop) (hfront : bytesAt slot values[start]? = .ok front)
    (hrest : ∀ index, range (index + 1) → ∀ other, slots[index]? = some other →
    ∃ bs, bytesAt other values[start + 1 + index]? = .ok bs)
    (index : Nat) (hindex : range index) (other : Slot)
    (hother : (slot :: slots)[index]? = some other) :
    ∃ bs, bytesAt other values[start + index]? = .ok bs := by
  cases index with
  | zero =>
    obtain rfl := Option.some.inj hother
    exact ⟨front, hfront⟩
  | succ index =>
    have hshift : start + (index + 1) = start + 1 + index := by omega
    rw [hshift]
    exact hrest index hindex other hother

/-- All slots are written, or the first that cannot be is reported. -/
theorem encodeFrom_cases (values : SlotMap) (start : Nat) (slots : List Slot) :
    (∃ bs, encodeFrom values start slots = .ok bs) ∧
        (∀ index slot, slots[index]? = some slot →
          ∃ bs, bytesAt slot values[start + index]? = .ok bs) ∨
      ∃ index slot error, encodeFrom values start slots = .error error ∧
        slots[index]? = some slot ∧ bytesAt slot values[start + index]? = .error error ∧
        ∀ earlier < index, ∀ other, slots[earlier]? = some other →
          ∃ bs, bytesAt other values[start + earlier]? = .ok bs := by
  induction slots generalizing start with
  | nil => exact .inl ⟨⟨[], rfl⟩, by simp⟩
  | cons slot slots ih =>
    rw [encodeFrom_cons]
    cases hfront : bytesAt slot values[start]? with
    | error error => exact .inr ⟨0, slot, error, rfl, rfl, hfront, by simp⟩
    | ok front =>
      rcases ih (start + 1) with
        ⟨⟨tail, htail⟩, hall⟩ | ⟨index, other, error, htail, hother, herror, hall⟩
      · refine .inl ⟨⟨front ++ tail, by rw [htail]; rfl⟩, fun index ↦ ?_⟩
        exact exists_bytesAt_cons (fun _ ↦ True) hfront (fun later _ ↦ hall later) index trivial
      · have hshift : start + (index + 1) = start + 1 + index := by omega
        refine .inr ⟨index + 1, other, error,
          by rw [htail]; rfl, hother, by rw [hshift]; exact herror, ?_⟩
        exact exists_bytesAt_cons (· < index + 1) hfront fun later hlater ↦
          hall later (Nat.lt_of_succ_lt_succ hlater)

theorem toBytes_of_typed {resource : Resource} (h : Typed resource) :
    (∃ bs, resource.toBytes = .ok bs) ∧
        (∀ index < resource.template.size, ∃ value, resource.valueAt? index = some value) ∨
      ∃ index slot, resource.toBytes = .error (.missingValue slot.name) ∧
        FirstUnwritten resource index slot := by
  have hvalue {index : Nat} (hindex : index < resource.template.size)
      (hbytes : ∀ slot, resource.template.slots[index]? = some slot →
        ∃ bs, bytesAt slot resource.values[0 + index]? = .ok bs) :
      ∃ value, resource.valueAt? index = some value := by
    obtain ⟨bs, hbs⟩ := hbytes _ (List.getElem?_eq_getElem hindex)
    rw [Nat.zero_add] at hbs
    exact exists_value_of_bytesAt hbs
  rcases encodeFrom_cases resource.values 0 resource.template.slots with ⟨hok, hall⟩ |
    ⟨index, slot, error, herror, hslot, hrefused, hall⟩
  · exact .inl ⟨hok, fun index hindex ↦ hvalue hindex (hall index)⟩
  · obtain ⟨hindex, _⟩ := List.getElem?_eq_some_iff.mp hslot
    have hwritten : ∀ earlier < index, ∃ value, resource.valueAt? earlier = some value :=
      fun earlier hearlier ↦ hvalue (hearlier.trans hindex) (hall earlier hearlier)
    rw [Nat.zero_add] at hrefused
    cases hnone : resource.values[index]? with
    | none =>
      rw [hnone] at hrefused
      obtain rfl := Except.error.inj hrefused
      exact .inr ⟨index, slot, herror, hslot, hnone, hwritten⟩
    | some value =>
      obtain ⟨found, bs, hfound, himage⟩ := h index value hnone
      obtain rfl := Option.some.inj (hslot.symm.trans hfound)
      rw [hnone, bytesAt, slot_encode_eq_ok_iff.mpr himage] at hrefused
      cases hrefused

theorem toBytes_eq_error_iff {resource : Resource} (h : Typed resource) (error : WriteError) :
    resource.toBytes = .error error ↔
      ∃ index slot, FirstUnwritten resource index slot ∧ error = .missingValue slot.name := by
  rcases toBytes_of_typed h with ⟨⟨bs, hok⟩, hwritten⟩ | ⟨index, slot, herror, hfirst⟩
  · refine iff_of_false (by simp [hok]) ?_
    rintro ⟨index, slot, hfirst, _⟩
    obtain ⟨hindex, _⟩ := List.getElem?_eq_some_iff.mp hfirst.slot
    obtain ⟨value, hvalue⟩ := hwritten index hindex
    exact absurd (hfirst.unwritten.symm.trans hvalue) (by simp)
  · rw [herror, Except.error.injEq]
    constructor
    · rintro rfl
      exact ⟨index, slot, hfirst, rfl⟩
    · rintro ⟨other, found, hother, rfl⟩
      rw [hfirst.unique hother]

theorem isComplete_iff (resource : Resource) :
    resource.isComplete = true ↔ ∀ index slot, resource.template.get? index = some slot →
      ∃ value, resource.valueAt? index = some value ∧ value.fits slot.type = true := by
  simp only [Resource.isComplete, List.all_eq_true, Prod.forall, List.mem_zipIdx_iff_getElem?,
    Option.any_eq_true]
  exact forall_comm

theorem isComplete_iff_toBytes {resource : Resource} (h : Typed resource) :
    resource.isComplete = true ↔ ∃ bs, resource.toBytes = .ok bs := by
  rw [isComplete_iff]
  rcases toBytes_of_typed h with ⟨hok, hwritten⟩ | ⟨index, slot, herror, hfirst⟩
  · refine iff_of_true (fun index slot hslot ↦ ?_) hok
    obtain ⟨hindex, _⟩ := List.getElem?_eq_some_iff.mp hslot
    obtain ⟨value, hvalue⟩ := hwritten index hindex
    obtain ⟨found, bs, hfound, himage⟩ := h index value hvalue
    obtain rfl := Option.some.inj (hslot.symm.trans hfound)
    exact ⟨value, hvalue, fits_of_encode (encode_of_image himage)⟩
  · refine iff_of_false (fun hcomplete ↦ ?_) (by simp [herror])
    obtain ⟨value, hvalue, _⟩ := hcomplete index slot hfirst.slot
    exact absurd (hfirst.unwritten.symm.trans hvalue) (by simp)

/-- A value of the form that the type asks for, and a type that asks for one. -/
structure Holds (type : SlotType) (value : Value) : Prop where
  fits : value.fits type = true
  known : ∀ tag, type ≠ .invalid tag
  nulFree : type.endsAtNul = true → ∀ text hint, value = .string text hint → '\x00' ∉ text.toList

theorem holds_of_image {type : SlotType} {value : Value} {bs : List UInt8}
    (h : Image type value bs) : Holds type value := by
  refine ⟨fits_of_encode (encode_of_image h), ?_, ?_⟩
  · rintro tag rfl
    cases h
  · rintro hends text hint rfl
    cases h with
    | pascal => cases hends
    | fixed width text hint hnul => exact hnul
    | terminated text hint hnul => exact hnul

/-- However a resource was written to, its values are at slots of its template and each is of the
form that its slot asks for. Its bytes are asked for in vain only where a slot has no value, and the
first such slot is named; and they are there exactly if the resource is complete. -/
theorem holds_run (origin : Origin) (operations : List Operation) :
    (run origin operations).template = origin.template ∧
    (∀ index value, (run origin operations).valueAt? index = some value →
      ∃ slot, origin.template.get? index = some slot ∧ Holds slot.type value) ∧
    (∀ error, (run origin operations).toBytes = .error error ↔
      ∃ index slot, FirstUnwritten (run origin operations) index slot ∧
        error = .missingValue slot.name) ∧
    ((run origin operations).isComplete = true ↔
      ∃ bs, (run origin operations).toBytes = .ok bs) := by
  have htemplate := template_run origin operations
  have htyped := typed_run origin operations
  refine ⟨htemplate, ?_, toBytes_eq_error_iff htyped, isComplete_iff_toBytes htyped⟩
  intro index value hvalue
  obtain ⟨slot, bs, hslot, himage⟩ := htyped index value hvalue
  exact ⟨slot, htemplate ▸ hslot, holds_of_image himage⟩

/-- A blob is written, and then bytes are read that end within the second slot. -/
example : (run (.blank cargo "CRGO" 128 "")
    [.setLiteral "seal" (.synthetic .string "ab c"), .readBytes [0, 7, 0x62]]).toBytes =
      .error (.missingValue "name") := by
  rfl

end ResourceLang.Proofs.TypedSlots
