import ResourceLang.Proofs.ByteScanner
import ResourceLang.Proofs.SourceCover

/-!
Characters read off bytes. Where an index stands in front of whole characters, every operation of a
scanner of bytes comes to what the characters say: none breaks down, and a run of bytes of a class
is a run of characters of it, for the classes do not tell the characters beyond ASCII apart.
-/

set_option autoImplicit false
set_option relaxedAutoImplicit false

namespace ResourceLang.Proofs.ByteReading

open Text Token Token.Scan Utf8Reading SourceCover ByteScanner

/-! ### Bytes of a character -/

theorem toNat_asChar (b : UInt8) : (asChar b).toNat = b.toNat := toNat_ofNat_byte b

theorem utf8EncodeChar_of_lt {c : Char} (h : c.toNat < 128) :
    String.utf8EncodeChar c = [UInt8.ofNat c.toNat] := by
  rw [String.utf8EncodeChar]
  exact if_pos (Nat.le_of_lt_succ h)

theorem asChar_ofNat {c : Char} (h : c.toNat < 128) : asChar (UInt8.ofNat c.toNat) = c := by
  rw [← Char.toNat_inj, toNat_asChar]
  exact UInt8.toNat_ofNat_of_lt' (h.trans (by decide))

/-- The bytes of a character are the character itself, or all of them are beyond ASCII as it is. -/
theorem asChar_of_mem {c : Char} {b : UInt8} (h : b ∈ String.utf8EncodeChar c) :
    asChar b = c ∨ 128 ≤ (asChar b).toNat ∧ 128 ≤ c.toNat := by
  by_cases hc : c.toNat < 128
  · left
    rw [utf8EncodeChar_of_lt hc, List.mem_singleton] at h
    rw [h, asChar_ofNat hc]
  by_cases hb : (asChar b).toNat < 128
  · left
    have hbyte : UInt8.ofNat (asChar b).toNat = b := by rw [toNat_asChar, UInt8.ofNat_toNat]
    exact ((ascii_mem_utf8EncodeChar hb).mp (hbyte.symm ▸ h)).symm
  · exact .inr ⟨Nat.le_of_not_lt hb, Nat.le_of_not_lt hc⟩

theorem not_isContinuation_of_isUTF8FirstByte {b : UInt8} (h : b.IsUTF8FirstByte) :
    Utf8.isContinuation b = false := by
  have hall : ∀ n : Fin 256, (UInt8.ofNat n).IsUTF8FirstByte →
      Utf8.isContinuation (UInt8.ofNat n) = false := by
    decide +kernel
  have hbyte := hall ⟨b.toNat, b.toNat_lt⟩
  rw [UInt8.ofNat_toNat] at hbyte
  exact hbyte h

/-- The first byte of a character. -/
def firstByte (c : Char) : UInt8 := (String.utf8EncodeChar c).head String.utf8EncodeChar_ne_nil

theorem firstByte_mem (c : Char) : firstByte c ∈ String.utf8EncodeChar c := List.head_mem _

theorem not_isContinuation_firstByte (c : Char) : Utf8.isContinuation (firstByte c) = false := by
  rw [firstByte, List.head_eq_getElem]
  exact not_isContinuation_of_isUTF8FirstByte UInt8.isUTF8FirstByte_getElem_zero_utf8EncodeChar

theorem getElem?_encode_cons (c : Char) (cs : List Char) :
    (Utf8.encode (c :: cs))[0]? = some (firstByte c) := by
  rw [encode_cons, List.getElem?_append_left (List.length_pos_iff.mpr String.utf8EncodeChar_ne_nil),
    firstByte, List.head_eq_getElem]
  exact List.getElem?_eq_getElem _

theorem asChar_firstByte {c : Char} (h : c.toNat < 128) : asChar (firstByte c) = c :=
  (asChar_of_mem (firstByte_mem c)).resolve_right fun hbeyond ↦
    absurd hbeyond.2 (Nat.not_le_of_lt h)

theorem asChar_firstByte_beyond {c : Char} (h : 128 ≤ c.toNat) :
    128 ≤ (asChar (firstByte c)).toNat := by
  rcases asChar_of_mem (firstByte_mem c) with heq | hbeyond
  · rwa [heq]
  · exact hbeyond.1

theorem asChar_firstByte_eq_iff {c d : Char} (hd : d.toNat < 128) :
    asChar (firstByte c) = d ↔ c = d := by
  rcases asChar_of_mem (firstByte_mem c) with heq | ⟨hfirst, hc⟩
  · rw [heq]
  · refine iff_of_false ?_ ?_
    · rintro rfl
      exact absurd hd (Nat.not_lt_of_le hfirst)
    · rintro rfl
      exact absurd hd (Nat.not_lt_of_le hc)

/-! ### Classes -/

/-- A class has all characters beyond ASCII or none of them. -/
def Uniform (p : Char → Bool) : Prop := ∀ c d : Char, 128 ≤ c.toNat → 128 ≤ d.toNat → p c = p d

theorem class_of_mem {p : Char → Bool} (hp : Uniform p) {c : Char} {b : UInt8}
    (h : b ∈ String.utf8EncodeChar c) :
    p (asChar b) = p c := by
  rcases asChar_of_mem h with heq | ⟨hb, hc⟩
  · rw [heq]
  · exact hp _ _ hb hc

theorem takeWhile_encode {p : Char → Bool} (hp : Uniform p) (cs : List Char) :
    (Utf8.encode cs).takeWhile (fun b ↦ p (asChar b)) = Utf8.encode (cs.takeWhile p) := by
  induction cs with
  | nil => rfl
  | cons c cs ih =>
    rw [encode_cons]
    by_cases hc : p c = true
    · have hall : ∀ b ∈ String.utf8EncodeChar c, p (asChar b) = true :=
        fun b hb ↦ (class_of_mem hp hb).trans hc
      rw [List.takeWhile_append_of_pos hall, ih, List.takeWhile_cons_of_pos hc, encode_cons]
    · have hfirst : p (asChar (firstByte c)) ≠ true := by rwa [class_of_mem hp (firstByte_mem c)]
      have hsplit : String.utf8EncodeChar c = firstByte c :: (String.utf8EncodeChar c).tail :=
        (List.cons_head_tail _).symm
      rw [List.takeWhile_cons_of_neg hc, hsplit, List.cons_append, List.takeWhile_cons,
        if_neg hfirst]
      rfl

theorem isDigit_beyond {c : Char} (h : 128 ≤ c.toNat) : c.isDigit = false := by
  rw [Bool.eq_false_iff, ne_eq, Char.isDigit_iff_toNat]
  have hnine : '9'.toNat = 57 := rfl
  omega

theorem isAlpha_beyond {c : Char} (h : 128 ≤ c.toNat) : c.isAlpha = false := by
  have hupper : ¬ c.val ≤ 'Z'.val := Nat.not_le.mpr (Nat.lt_of_lt_of_le (by decide) h)
  have hlower : ¬ c.val ≤ 'z'.val := Nat.not_le.mpr (Nat.lt_of_lt_of_le (by decide) h)
  refine Bool.or_eq_false_iff.mpr ⟨decide_eq_false fun hbounds ↦ hupper hbounds.2, ?_⟩
  exact Bool.and_eq_false_iff.mpr (.inr (decide_eq_false hlower))

theorem ne_of_beyond {c d : Char} (hc : 128 ≤ c.toNat) (hd : d.toNat < 128) : c ≠ d := by
  rintro rfl
  omega

theorem uniform_of_beyond {p : Char → Bool} (value : Bool)
    (h : ∀ c : Char, 128 ≤ c.toNat → p c = value) :
    Uniform p := fun c d hc hd ↦ (h c hc).trans (h d hd).symm

theorem uniform_isDigit : Uniform Char.isDigit := uniform_of_beyond false fun _ ↦ isDigit_beyond

theorem uniform_eq {d : Char} (hd : d.toNat < 128) : Uniform fun c ↦ c = d :=
  uniform_of_beyond false fun _ hc ↦ decide_eq_false (ne_of_beyond hc hd)

theorem uniform_ne {d : Char} (hd : d.toNat < 128) : Uniform fun c ↦ c ≠ d :=
  uniform_of_beyond true fun _ hc ↦ decide_eq_true (ne_of_beyond hc hd)

theorem uniform_isWord : Uniform isWord :=
  uniform_of_beyond false fun c hc ↦ by
    have hunderscore : c ≠ '_' := ne_of_beyond hc (by decide)
    simp [isWord, Char.isAlphanum, isAlpha_beyond hc, isDigit_beyond hc, hunderscore]

theorem isWordStart_beyond {c : Char} (h : 128 ≤ c.toNat) : isWordStart c = false := by
  have hunderscore : c ≠ '_' := ne_of_beyond h (by decide)
  simp [isWordStart, isAlpha_beyond h, hunderscore]

theorem uniform_isHexDigit : Uniform isHexDigit :=
  uniform_of_beyond false fun c hc ↦ by
    have hval : 128 ≤ c.val.toNat := hc
    simp only [isHexDigit, isDigit_beyond hc, Char.le_def, Bool.or_eq_false_iff,
      Bool.and_eq_false_iff, decide_eq_false_iff_not, UInt32.le_iff_toNat_le, UInt32.reduceToNat,
      Char.reduceVal, true_and]
    omega

/-! ### Indices in front of characters -/

theorem ok_bind {α β : Type} (a : α) (f : α → Except Fault β) : (Except.ok a >>= f) = f a := rfl

/-- The characters are what lies ahead of an index, and whole characters lie before it. -/
def Ahead (bytes : List UInt8) (position : Nat) (cs : List Char) : Prop :=
  ∃ before, bytes = Utf8.encode before ++ Utf8.encode cs ∧ position = (Utf8.encode before).length

theorem ahead_bytes (text : String) : Ahead (Utf8.bytes text) 0 text.toList := ⟨[], rfl, rfl⟩

namespace Ahead

variable {bytes : List UInt8} {position : Nat} {cs taken rest : List Char} {c : Char}
  {p : Char → Bool}

theorem onward (h : Ahead bytes position (taken ++ rest)) :
    Ahead bytes (position + (Utf8.encode taken).length) rest := by
  obtain ⟨before, rfl, rfl⟩ := h
  refine ⟨before ++ taken, ?_, ?_⟩
  · rw [Utf8.encode_append, Utf8.encode_append, List.append_assoc]
  · rw [Utf8.encode_append, List.length_append]

theorem drop_eq (h : Ahead bytes position cs) : bytes.drop position = Utf8.encode cs := by
  obtain ⟨before, rfl, rfl⟩ := h
  exact List.drop_left

theorem length_eq (h : Ahead bytes position cs) :
    bytes.length = position + (Utf8.encode cs).length := by
  obtain ⟨before, rfl, rfl⟩ := h
  exact List.length_append

theorem le (h : Ahead bytes position cs) : position ≤ bytes.length := by
  rw [h.length_eq]
  exact Nat.le_add_right _ _

theorem getElem?_eq (h : Ahead bytes position cs) : bytes[position]? = (Utf8.encode cs)[0]? := by
  obtain ⟨before, rfl, rfl⟩ := h
  rw [List.getElem?_append_right le_rfl, Nat.sub_self]

theorem isBoundary (h : Ahead bytes position cs) : isBoundary bytes position = true := by
  cases cs with
  | nil =>
    have hend : bytes.length = position := h.length_eq
    simp [ByteScanner.isBoundary, hend]
  | cons c cs =>
    have hbyte := h.getElem?_eq.trans (getElem?_encode_cons c cs)
    simp [ByteScanner.isBoundary, hbyte, not_isContinuation_firstByte]

theorem moveTo (h : Ahead bytes position cs) (cursor : Cursor) :
    moveTo bytes cursor position = .ok ⟨position, cursor.line, cursor.lineStart, cursor.mode⟩ :=
  if_pos ⟨h.le, h.isBoundary⟩

theorem extract_eq (h : Ahead bytes position (taken ++ rest)) :
    bytes.extract position (position + (Utf8.encode taken).length) = Utf8.encode taken := by
  obtain ⟨before, rfl, rfl⟩ := h
  rw [Utf8.encode_append, ← List.append_assoc, ← List.length_append, extract_append]

theorem sliceBytes (h : Ahead bytes position (taken ++ rest)) :
    sliceBytes bytes position (position + (Utf8.encode taken).length) =
      .ok (Utf8.encode taken) := by
  rw [ByteScanner.sliceBytes, if_pos ⟨Nat.le_add_right _ _, h.onward.le⟩, h.extract_eq]

theorem slice (h : Ahead bytes position (taken ++ rest)) :
    slice bytes position (position + (Utf8.encode taken).length) = .ok (String.ofList taken) := by
  rw [slice_eq_ok_iff]
  refine ⟨⟨h.isBoundary, h.onward.isBoundary⟩, ⟨Nat.le_add_right _ _, h.onward.le⟩, ?_⟩
  rw [h.extract_eq, lossy_encode]

theorem slice_length (h : Ahead bytes position cs) :
    ByteScanner.slice bytes position bytes.length = .ok (String.ofList cs) := by
  rw [← List.append_nil cs] at h
  rw [h.length_eq, List.append_nil]
  exact h.slice

theorem byte?_nil (h : Ahead bytes position []) : byte? bytes position = none := by
  rw [byte?, h.getElem?_eq]
  rfl

theorem byte?_cons (h : Ahead bytes position (c :: cs)) :
    byte? bytes position = some (asChar (firstByte c)) := by
  rw [byte?, h.getElem?_eq, getElem?_encode_cons]
  rfl

theorem byte?_eq_some_iff (h : Ahead bytes position cs) {d : Char} (hd : d.toNat < 128) :
    byte? bytes position = some d ↔ cs.head? = some d := by
  cases cs with
  | nil =>
    rw [h.byte?_nil]
    exact iff_of_false nofun nofun
  | cons c cs =>
      rw [h.byte?_cons, List.head?_cons, Option.some_inj, Option.some_inj,
        asChar_firstByte_eq_iff hd]

theorem byteIs (h : Ahead bytes position cs) (hp : Uniform p) :
    byteIs bytes position p = cs.head?.any p := by
  cases cs with
  | nil =>
    rw [ByteScanner.byteIs, h.byte?_nil]
    rfl
  | cons c cs =>
    rw [ByteScanner.byteIs, h.byte?_cons]
    exact class_of_mem hp (firstByte_mem c)

theorem byteIs_eq_iff (h : Ahead bytes position cs) {d : Char} (hd : d.toNat < 128) :
    (ByteScanner.byteIs bytes position fun c ↦ c = d) = true ↔ cs.head? = some d := by
  rw [h.byteIs (uniform_eq hd)]
  cases cs <;> simp

theorem runEnd (h : Ahead bytes position cs) (hp : Uniform p) :
    runEnd bytes position p = position + (Utf8.encode (cs.takeWhile p)).length := by
  rw [ByteScanner.runEnd, h.drop_eq, takeWhile_encode hp]

theorem consumeWhile {cursor : Cursor} (h : Ahead bytes cursor.position cs) (hp : Uniform p) :
    consumeWhile bytes p cursor = .ok ⟨String.ofList (cs.takeWhile p),
      ⟨cursor.position + (Utf8.encode (cs.takeWhile p)).length, cursor.line, cursor.lineStart,
        cursor.mode⟩⟩ := by
  have hsplit : Ahead bytes cursor.position (cs.takeWhile p ++ cs.dropWhile p) := by
    rwa [List.takeWhile_append_dropWhile]
  rw [ByteScanner.consumeWhile, h.runEnd hp, hsplit.onward.moveTo, ok_bind, hsplit.slice]
  rfl

end Ahead

end ResourceLang.Proofs.ByteReading
