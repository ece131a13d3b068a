import Mathlib.Data.List.Induction
import Mathlib.Data.List.TakeWhile
import Mathlib.Tactic.Ring
import ResourceLang.Proofs.Utf8Reading
import ResourceLang.Slot.Layout

/-!
The bytes of one slot. `Image` relates a value to the bytes that its slot is written as, and `Reads`
relates the bytes of a slot to the value that they are read as. What a slot is written as is read
back whatever follows it, as the value that the slot keeps. What is read can be written again, and
gives the same bytes only where the reading lost nothing.
-/

set_option autoImplicit false
set_option relaxedAutoImplicit false

namespace ResourceLang.Proofs.SlotImage

open Text Layout Utf8Reading

theorem bind_eq_ok_iff {ε α β : Type} {x : Except ε α} {f : α → Except ε β} {b : β} :
    (x >>= f) = .ok b ↔ ∃ a, x = .ok a ∧ f a = .ok b := by
  cases x with
  | error e => simp [bind, Except.bind]
  | ok a => simp [bind, Except.bind]

/-! ### Words -/

/-- Bytes are written back from the word that they are read as. -/
theorem bigEndian_ofBigEndian (bs : List UInt8) : bigEndian bs.length (ofBigEndian bs) = bs := by
  induction bs using List.reverseRecOn with
  | nil => rfl
  | append_singleton bs b ih =>
    have hb := b.toNat_lt
    have hdiv : (ofBigEndian bs * 256 + b.toNat) / 256 = ofBigEndian bs := by omega
    have hmod : (ofBigEndian bs * 256 + b.toNat) % 256 = b.toNat := by omega
    rw [ofBigEndian_concat, List.length_append, List.length_singleton, bigEndian, hdiv, hmod, ih,
      UInt8.ofNat_toNat]

theorem bigEndian_ofNat_ofBigEndian {width : Width} {bs : List UInt8}
    (h : bs.length = width.bytes) :
    bigEndian width.bytes (BitVec.ofNat width.bits (ofBigEndian bs)).toNat = bs := by
  have hbound : ∀ bs : List UInt8, ofBigEndian bs < 256 ^ bs.length := by
    intro bs
    induction bs using List.reverseRecOn with
    | nil => simp [ofBigEndian]
    | append_singleton bs b ih =>
      have hb := b.toNat_lt
      rw [ofBigEndian_concat, List.length_append, List.length_singleton, pow_succ]
      omega
  have hbits : 2 ^ width.bits = 256 ^ bs.length := by
    rw [h, Width.bits, pow_mul]
    rfl
  rw [BitVec.toNat_ofNat, hbits, Nat.mod_eq_of_lt (hbound bs), ← h]
  exact bigEndian_ofBigEndian bs

theorem edge_bigEndian (n : Int16) : edge (bigEndian 2 n.toBitVec.toNat) = n :=
  congrArg Int16.ofBitVec (@ofNat_ofBigEndian_bigEndian .word n.toBitVec)

theorem bigEndian_edge {bs : List UInt8} (h : bs.length = 2) :
    bigEndian 2 (edge bs).toBitVec.toNat = bs :=
  @bigEndian_ofNat_ofBigEndian .word bs h

theorem rectOfBytes_bytesOfRect (edges : Rect) : rectOfBytes (bytesOfRect edges) = edges := by
  have hparts : rectOfBytes (bytesOfRect edges) =
      ⟨edge (bigEndian 2 edges.top.toBitVec.toNat), edge (bigEndian 2 edges.left.toBitVec.toNat),
        edge (bigEndian 2 edges.bottom.toBitVec.toNat),
        edge (bigEndian 2 edges.right.toBitVec.toNat)⟩ := rfl
  rw [hparts]
  simp only [edge_bigEndian]

theorem bytesOfRect_rectOfBytes {bs : List UInt8} (h : bs.length = 8) :
    bytesOfRect (rectOfBytes bs) = bs := by
  have htop : (bs.take 2).length = 2 := by rw [List.length_take]; omega
  have hleft : ((bs.drop 2).take 2).length = 2 := by
    rw [List.length_take, List.length_drop]; omega
  have hbottom : ((bs.drop 4).take 2).length = 2 := by
    rw [List.length_take, List.length_drop]; omega
  have hright : (bs.drop 6).length = 2 := by rw [List.length_drop]; omega
  rw [bytesOfRect, rectOfBytes, bigEndian_edge htop, bigEndian_edge hleft, bigEndian_edge hbottom,
    bigEndian_edge hright]
  simp only [List.append_assoc]
  rw [show bs.drop 6 = (bs.drop 4).drop 2 by rw [List.drop_drop], List.take_append_drop,
    show bs.drop 4 = (bs.drop 2).drop 2 by rw [List.drop_drop], List.take_append_drop,
    List.take_append_drop]

/-! ### Writing -/

/-- A value that a slot of the type can take, and the bytes of the slot. -/
inductive Image : SlotType → Value → List UInt8 → Prop
  | unsigned (width : Width) (n : BitVec width.bits) :
    Image (.unsigned width) (.unsigned width n) (bigEndian width.bytes n.toNat)
  | signed (width : Width) (n : BitVec width.bits) :
    Image (.signed width) (.signed width n) (bigEndian width.bytes n.toNat)
  | rect (edges : Rect) : Image .rect (.rect edges) (bytesOfRect edges)
  | pascal (text : String) (hint : Nat) :
    Image .pascal (.string text hint) (counted (Utf8.encode (kept .pascal text.toList)))
  | fixed (width : UInt16) (text : String) (hint : Nat) (hnul : '\x00' ∉ text.toList) :
    Image (.fixed width) (.string text hint)
      ((Utf8.encode (kept (.fixed width) text.toList)).rightpad width.toNat 0)
  | terminated (text : String) (hint : Nat) (hnul : '\x00' ∉ text.toList) :
    Image .terminated (.string text hint) (Utf8.encode text.toList ++ [0])
  | hexData (data : List UInt8) :
    Image .hexData (.bytes data) (counted (data.take maxCounted))

theorem fits_of_encode {type : SlotType} {value : Value} {bs : List UInt8}
    (h : encode type value = .ok bs) : value.fits type = true := by
  unfold encode at h
  split at h
  · simp at h
  · split at h
    · assumption
    · simp at h

theorem nul_not_mem_of_bytesOfText {type : SlotType} {text : String} {bs : List UInt8}
    (hends : type.endsAtNul = true) (h : bytesOfText type text = .ok bs) :
    '\x00' ∉ text.toList := by
  intro hnul
  rw [bytesOfText, if_pos ⟨hends, hnul⟩] at h
  simp at h

theorem endsAtNul_pascal : SlotType.pascal.endsAtNul = false := rfl

theorem image_of_encode {type : SlotType} {value : Value} {bs : List UInt8}
    (h : encode type value = .ok bs) : Image type value bs := by
  have hfits := fits_of_encode h
  cases value with
  | unsigned width n =>
    cases type <;> simp only [Value.fits, Bool.false_eq_true, decide_eq_true_eq] at hfits
    subst hfits
    simp only [encode, Value.fits, decide_true, ↓reduceIte, Except.ok.injEq] at h
    exact h ▸ .unsigned width n
  | signed width n =>
    cases type <;> simp only [Value.fits, Bool.false_eq_true, decide_eq_true_eq] at hfits
    subst hfits
    simp only [encode, Value.fits, decide_true, ↓reduceIte, Except.ok.injEq] at h
    exact h ▸ .signed width n
  | rect edges =>
    cases type <;> simp only [Value.fits, Bool.false_eq_true] at hfits
    simp only [encode, Value.fits, ↓reduceIte, Except.ok.injEq] at h
    exact h ▸ .rect edges
  | string text hint =>
    cases type <;> simp only [Value.fits, Bool.false_eq_true] at hfits <;>
      simp only [encode, Value.fits, ↓reduceIte] at h
    case pascal =>
      simp only [bytesOfText, endsAtNul_pascal, Bool.false_eq_true, false_and, ↓reduceIte,
        Except.ok.injEq] at h
      exact h ▸ .pascal text hint
    case fixed width =>
      have hnul := nul_not_mem_of_bytesOfText rfl h
      simp only [bytesOfText, hnul, and_false, ↓reduceIte, Except.ok.injEq] at h
      exact h ▸ .fixed width text hint hnul
    case terminated =>
      have hnul := nul_not_mem_of_bytesOfText rfl h
      simp only [bytesOfText, hnul, and_false, ↓reduceIte, Except.ok.injEq] at h
      exact h ▸ .terminated text hint hnul
  | bytes data =>
    cases type <;> simp only [Value.fits, Bool.false_eq_true] at hfits
    simp only [encode, Value.fits, ↓reduceIte, Except.ok.injEq] at h
    exact h ▸ .hexData data

theorem encode_of_image {type : SlotType} {value : Value} {bs : List UInt8}
    (h : Image type value bs) : encode type value = .ok bs := by
  cases h with
  | unsigned width n => simp [encode, Value.fits]
  | signed width n => simp [encode, Value.fits]
  | rect edges => simp [encode, Value.fits]
  | pascal text hint => simp [encode, Value.fits, bytesOfText, endsAtNul_pascal]
  | fixed width text hint hnul => simp [encode, Value.fits, bytesOfText, hnul]
  | terminated text hint hnul => simp [encode, Value.fits, bytesOfText, hnul, kept]
  | hexData data => simp [encode, Value.fits]

theorem encode_eq_ok_iff {type : SlotType} {value : Value} {bs : List UInt8} :
    encode type value = .ok bs ↔ Image type value bs :=
  ⟨image_of_encode, encode_of_image⟩

/-! ### Reading -/

theorem split_eq_ok_iff {count : Nat} {bs front rest : List UInt8} :
    split count bs = .ok (front, rest) ↔ bs = front ++ rest ∧ front.length = count := by
  unfold split
  constructor
  · intro h
    dsimp only at h
    split_ifs at h with hlength
    injection h with h
    injection h with hfront hrest
    subst hfront hrest
    exact ⟨(List.take_append_drop count bs).symm, hlength⟩
  · rintro ⟨rfl, rfl⟩
    simp

theorem splitCounted_eq_ok_iff {bs front rest : List UInt8} :
    splitCounted bs = .ok (front, rest) ↔ bs = counted front ++ rest ∧ front.length < 256 := by
  cases bs with
  | nil => simp [splitCounted, counted]
  | cons count bs =>
    rw [splitCounted, split_eq_ok_iff, counted, List.cons_append, List.cons.injEq]
    constructor
    · rintro ⟨rfl, hlength⟩
      rw [hlength, UInt8.ofNat_toNat]
      exact ⟨⟨rfl, rfl⟩, count.toNat_lt⟩
    · rintro ⟨⟨rfl, rfl⟩, hlength⟩
      exact ⟨rfl, (UInt8.toNat_ofNat_of_lt' hlength).symm⟩

theorem decide_ne_zero {body : List UInt8} (h : 0 ∉ body) : ∀ b ∈ body, decide (b ≠ 0) = true := by
  intro b hb
  rw [decide_eq_true_eq]
  rintro rfl
  exact h hb

theorem zero_not_mem_takeWhile (bs : List UInt8) : 0 ∉ bs.takeWhile (· ≠ 0) := by
  intro h
  simpa using List.mem_takeWhile_imp h

theorem takeWhile_append_zero {body : List UInt8} (h : 0 ∉ body) (bs : List UInt8) :
    (body ++ 0 :: bs).takeWhile (· ≠ 0) = body := by
  rw [List.takeWhile_append_of_pos (decide_ne_zero h), List.takeWhile_cons_of_neg (by simp),
    List.append_nil]

theorem takeWhile_of_zero_not_mem {body : List UInt8} (h : 0 ∉ body) :
    body.takeWhile (· ≠ 0) = body :=
  List.takeWhile_eq_self_iff.mpr (decide_ne_zero h)

theorem dropWhile_append_zero {body : List UInt8} (h : 0 ∉ body) (bs : List UInt8) :
    (body ++ 0 :: bs).dropWhile (· ≠ 0) = 0 :: bs := by
  rw [List.dropWhile_append_of_pos (decide_ne_zero h), List.dropWhile_cons_of_neg (by simp)]

/-- Bytes end without a zero, or at their first zero and whatever follows it. -/
theorem dropWhile_cases (bs : List UInt8) :
    bs.dropWhile (· ≠ 0) = [] ∨ ∃ tail, bs.dropWhile (· ≠ 0) = 0 :: tail := by
  cases h : bs.dropWhile (· ≠ 0) with
  | nil => exact .inl rfl
  | cons b tail =>
    have hne : bs.dropWhile (· ≠ 0) ≠ [] := by
      rw [h]
      exact List.cons_ne_nil b tail
    have hhead := List.head_dropWhile_not (fun b : UInt8 ↦ decide (b ≠ 0)) hne
    simp only [h, List.head_cons, decide_eq_false_iff_not, not_not] at hhead
    exact .inr ⟨tail, by rw [hhead]⟩

/-- The bytes of a slot, the bytes after it and the value read. Only a terminated text hangs on what
comes after: it may go without its NUL where nothing does. -/
inductive Reads : SlotType → List UInt8 → List UInt8 → Value → Prop
  | unsigned {width : Width} {taken : List UInt8} (rest : List UInt8)
      (hlength : taken.length = width.bytes) :
    Reads (.unsigned width) taken rest
      (.unsigned width (BitVec.ofNat width.bits (ofBigEndian taken)))
  | signed {width : Width} {taken : List UInt8} (rest : List UInt8)
      (hlength : taken.length = width.bytes) :
    Reads (.signed width) taken rest
      (.signed width (BitVec.ofNat width.bits (ofBigEndian taken)))
  | rect {taken : List UInt8} (rest : List UInt8) (hlength : taken.length = 8) :
    Reads .rect taken rest (.rect (rectOfBytes taken))
  | pascal {body : List UInt8} (rest : List UInt8) (hlength : body.length < 256) :
    Reads .pascal (counted body) rest (.string (Utf8.lossy body) body.length)
  | hexData {body : List UInt8} (rest : List UInt8) (hlength : body.length < 256) :
    Reads .hexData (counted body) rest (.bytes body)
  | fixed {width : UInt16} {taken : List UInt8} (rest : List UInt8)
      (hlength : taken.length = width.toNat) :
    Reads (.fixed width) taken rest
      (.string (Utf8.lossy (taken.takeWhile (· ≠ 0))) width.toNat)
  | terminated {body : List UInt8} (rest : List UInt8) (hbody : 0 ∉ body) :
    Reads .terminated (body ++ [0]) rest (.string (Utf8.lossy body) 0)
  | unterminated {body : List UInt8} (hbody : 0 ∉ body) :
    Reads .terminated body [] (.string (Utf8.lossy body) 0)

theorem reads_of_decode {type : SlotType} {bs rest : List UInt8} {value : Value}
    (h : decode type bs = .ok (value, rest)) :
    ∃ taken, bs = taken ++ rest ∧ Reads type taken rest value := by
  cases type <;> simp only [decode, bind_eq_ok_iff, pure, Except.pure, Prod.exists,
    Except.ok.injEq, Prod.mk.injEq, reduceCtorEq, split_eq_ok_iff, splitCounted_eq_ok_iff] at h
  case unsigned width =>
    obtain ⟨front, _, ⟨rfl, hlength⟩, rfl, rfl⟩ := h
    exact ⟨front, rfl, .unsigned _ hlength⟩
  case signed width =>
    obtain ⟨front, _, ⟨rfl, hlength⟩, rfl, rfl⟩ := h
    exact ⟨front, rfl, .signed _ hlength⟩
  case rect =>
    obtain ⟨front, _, ⟨rfl, hlength⟩, rfl, rfl⟩ := h
    exact ⟨front, rfl, .rect _ hlength⟩
  case pascal =>
    obtain ⟨body, _, ⟨rfl, hlength⟩, rfl, rfl⟩ := h
    exact ⟨counted body, rfl, .pascal _ hlength⟩
  case hexData =>
    obtain ⟨body, _, ⟨rfl, hlength⟩, rfl, rfl⟩ := h
    exact ⟨counted body, rfl, .hexData _ hlength⟩
  case fixed width =>
    obtain ⟨front, _, ⟨rfl, hlength⟩, rfl, rfl⟩ := h
    exact ⟨front, rfl, .fixed _ hlength⟩
  case terminated =>
    obtain ⟨rfl, rfl⟩ := h
    have hbody := zero_not_mem_takeWhile bs
    have hbs : bs = bs.takeWhile (· ≠ 0) ++ bs.dropWhile (· ≠ 0) :=
      List.takeWhile_append_dropWhile.symm
    rcases dropWhile_cases bs with hnil | ⟨tail, hcons⟩
    · rw [hnil] at hbs ⊢
      exact ⟨bs.takeWhile (· ≠ 0), hbs, .unterminated hbody⟩
    · rw [hcons] at hbs ⊢
      refine ⟨bs.takeWhile (· ≠ 0) ++ [0], ?_, .terminated tail hbody⟩
      rw [List.append_assoc]
      exact hbs

theorem decode_of_reads {type : SlotType} {taken rest : List UInt8} {value : Value}
    (h : Reads type taken rest value) : decode type (taken ++ rest) = .ok (value, rest) := by
  cases h with
  | unsigned rest hlength =>
    rw [decode, split_eq_ok_iff.mpr ⟨rfl, hlength⟩]
    rfl
  | signed rest hlength =>
    rw [decode, split_eq_ok_iff.mpr ⟨rfl, hlength⟩]
    rfl
  | rect rest hlength =>
    rw [decode, split_eq_ok_iff.mpr ⟨rfl, hlength⟩]
    rfl
  | pascal rest hlength =>
    rw [decode, splitCounted_eq_ok_iff.mpr ⟨rfl, hlength⟩]
    rfl
  | hexData rest hlength =>
    rw [decode, splitCounted_eq_ok_iff.mpr ⟨rfl, hlength⟩]
    rfl
  | fixed rest hlength =>
    rw [decode, split_eq_ok_iff.mpr ⟨rfl, hlength⟩]
    rfl
  | terminated rest hbody =>
    rw [decode, List.append_assoc, List.singleton_append, takeWhile_append_zero hbody,
      dropWhile_append_zero hbody]
    rfl
  | unterminated hbody =>
    rw [decode, List.append_nil, takeWhile_of_zero_not_mem hbody,
      List.dropWhile_eq_nil_iff.mpr (decide_ne_zero hbody)]
    rfl

theorem decode_eq_ok_iff {type : SlotType} {bs rest : List UInt8} {value : Value} :
    decode type bs = .ok (value, rest) ↔
      ∃ taken, bs = taken ++ rest ∧ Reads type taken rest value := by
  constructor
  · exact reads_of_decode
  · rintro ⟨taken, rfl, h⟩
    exact decode_of_reads h

/-! ### Reading what was written -/

/-- What a slot of the type keeps of a value that fits it. -/
def stored (type : SlotType) : Value → Value
  | .string text _ =>
    .string (String.ofList (kept type text.toList))
      (type.lengthHint (Utf8.size (kept type text.toList)))
  | .bytes data => .bytes (data.take maxCounted)
  | value => value

/-- A value, and the normal form of it that a slot of the type keeps: texts are cut to whole
characters within the room there is, with the length hint of the type, and blobs to what a length
byte counts. -/
inductive NormalForm : SlotType → Value → Value → Prop
  | unsigned (width : Width) (n : BitVec width.bits) :
    NormalForm (.unsigned width) (.unsigned width n) (.unsigned width n)
  | signed (width : Width) (n : BitVec width.bits) :
    NormalForm (.signed width) (.signed width n) (.signed width n)
  | rect (edges : Rect) : NormalForm .rect (.rect edges) (.rect edges)
  | pascal {text short : String} (hint : Nat)
      (hshort : LongestWithin 255 text.toList short.toList) :
    NormalForm .pascal (.string text hint) (.string short short.utf8ByteSize)
  | fixed (width : UInt16) {text short : String} (hint : Nat)
      (hshort : LongestWithin (width.toNat - 1) text.toList short.toList) :
    NormalForm (.fixed width) (.string text hint) (.string short width.toNat)
  | terminated (text : String) (hint : Nat) :
    NormalForm .terminated (.string text hint) (.string text 0)
  | hexData (data : List UInt8) :
    NormalForm .hexData (.bytes data) (.bytes (data.take (min 255 data.length)))

theorem normalForm_stored {type : SlotType} {value : Value} {bs : List UInt8}
    (h : Image type value bs) : NormalForm type value (stored type value) := by
  cases h with
  | unsigned width n => exact .unsigned width n
  | signed width n => exact .signed width n
  | rect edges => exact .rect edges
  | pascal text hint =>
    have hshort := longestWithin_prefixWithin 255 text.toList
    rw [← String.toList_ofList (l := Utf8.prefixWithin 255 text.toList)] at hshort
    have hform := NormalForm.pascal hint hshort
    rwa [utf8ByteSize_ofList] at hform
  | fixed width text hint hnul =>
    have hshort := longestWithin_prefixWithin (width.toNat - 1) text.toList
    rw [← String.toList_ofList (l := Utf8.prefixWithin (width.toNat - 1) text.toList)] at hshort
    exact .fixed width hint hshort
  | terminated text hint hnul =>
    have hkept : stored .terminated (.string text hint) = .string text 0 := by
      simp only [stored, kept, String.ofList_toList, SlotType.lengthHint]
    rw [hkept]
    exact .terminated text hint
  | hexData data =>
    have hkept : data.take maxCounted = data.take (min 255 data.length) :=
      List.take_eq_take_iff.mpr (by rw [maxCounted]; omega)
    rw [stored, hkept]
    exact .hexData data

theorem nul_not_mem_kept {type : SlotType} {text : String} (h : '\x00' ∉ text.toList) :
    '\x00' ∉ kept type text.toList := by
  intro hmem
  cases type <;> simp only [kept] at hmem
  case pascal => exact h ((Utf8.prefixWithin_isPrefix _ _).subset hmem)
  case fixed => exact h ((Utf8.prefixWithin_isPrefix _ _).subset hmem)
  all_goals exact h hmem

theorem kept_kept (type : SlotType) (cs : List Char) : kept type (kept type cs) = kept type cs := by
  cases type <;> simp only [kept]
  case pascal => exact prefixWithin_of_size_le (Utf8.size_prefixWithin_le _ _)
  case fixed => exact prefixWithin_of_size_le (Utf8.size_prefixWithin_le _ _)

theorem length_encode_kept_fixed (width : UInt16) (cs : List Char) :
    (Utf8.encode (kept (.fixed width) cs)).length ≤ width.toNat - 1 := by
  rw [Utf8.length_encode]
  exact Utf8.size_prefixWithin_le (width.toNat - 1) cs

theorem length_encode_kept_pascal (cs : List Char) :
    (Utf8.encode (kept .pascal cs)).length < 256 := by
  rw [Utf8.length_encode]
  exact Nat.lt_succ_of_le (Utf8.size_prefixWithin_le maxCounted cs)

theorem takeWhile_rightpad {body : List UInt8} (h : 0 ∉ body) (width : Nat) :
    (body.rightpad width 0).takeWhile (· ≠ 0) = body := by
  unfold List.rightpad
  cases width - body.length with
  | zero => rw [List.replicate_zero, List.append_nil, takeWhile_of_zero_not_mem h]
  | succ count => exact takeWhile_append_zero h (List.replicate count 0)

/-- A slot is read back from its bytes, whatever bytes follow. -/
theorem reads_of_image {type : SlotType} {value : Value} {bs : List UInt8}
    (h : Image type value bs) (rest : List UInt8) : Reads type bs rest (stored type value) := by
  cases h with
  | unsigned width n =>
    have hreads := Reads.unsigned rest (length_bigEndian width.bytes n.toNat)
    rwa [ofNat_ofBigEndian_bigEndian] at hreads
  | signed width n =>
    have hreads := Reads.signed rest (length_bigEndian width.bytes n.toNat)
    rwa [ofNat_ofBigEndian_bigEndian] at hreads
  | rect edges =>
    have hlength : (bytesOfRect edges).length = 8 := by simp [bytesOfRect]
    have hreads := Reads.rect rest hlength
    rwa [rectOfBytes_bytesOfRect] at hreads
  | pascal text hint =>
    have hreads := Reads.pascal rest (length_encode_kept_pascal text.toList)
    rwa [lossy_encode, Utf8.length_encode] at hreads
  | fixed width text hint hnul =>
    have hzero : 0 ∉ Utf8.encode (kept (.fixed width) text.toList) :=
      mt zero_mem_encode.mp (nul_not_mem_kept hnul)
    have hlength : ((Utf8.encode (kept (.fixed width) text.toList)).rightpad width.toNat 0).length =
        width.toNat := by
      have hle := length_encode_kept_fixed width text.toList
      rw [List.length_rightpad]
      omega
    have hreads := Reads.fixed rest hlength
    rwa [takeWhile_rightpad hzero, lossy_encode] at hreads
  | terminated text hint hnul =>
    have hreads := Reads.terminated rest (mt zero_mem_encode.mp hnul)
    rwa [lossy_encode] at hreads
  | hexData data =>
    have hlength : (data.take maxCounted).length < 256 := by
      rw [List.length_take]
      exact Nat.lt_succ_of_le (Nat.min_le_left _ _)
    exact .hexData rest hlength

/-- Nothing more is lost when what a slot keeps is written again. -/
theorem image_stored {type : SlotType} {value : Value} {bs : List UInt8}
    (h : Image type value bs) : Image type (stored type value) bs := by
  cases h with
  | unsigned width n => exact .unsigned width n
  | signed width n => exact .signed width n
  | rect edges => exact .rect edges
  | pascal text hint =>
    have himage := Image.pascal (String.ofList (kept .pascal text.toList))
      (SlotType.pascal.lengthHint (Utf8.size (kept .pascal text.toList)))
    rwa [String.toList_ofList, kept_kept] at himage
  | fixed width text hint hnul =>
    have himage := Image.fixed width (String.ofList (kept (.fixed width) text.toList))
      (SlotType.lengthHint (.fixed width) (Utf8.size (kept (.fixed width) text.toList)))
    rw [String.toList_ofList] at himage
    rw [kept_kept] at himage
    exact himage (nul_not_mem_kept hnul)
  | terminated text hint hnul =>
    have himage := Image.terminated (String.ofList text.toList) 0
    rw [String.toList_ofList] at himage
    exact himage hnul
  | hexData data =>
    have himage := Image.hexData (data.take maxCounted)
    rwa [List.take_take, Nat.min_self] at himage

/-- What is read can always be written again. -/
theorem image_of_reads {type : SlotType} {taken rest : List UInt8} {value : Value}
    (h : Reads type taken rest value) : ∃ written, Image type value written := by
  cases h with
  | unsigned rest hlength => exact ⟨_, .unsigned _ _⟩
  | signed rest hlength => exact ⟨_, .signed _ _⟩
  | rect rest hlength => exact ⟨_, .rect _⟩
  | pascal rest hlength => exact ⟨_, .pascal _ _⟩
  | hexData rest hlength => exact ⟨_, .hexData _⟩
  | fixed rest hlength =>
    exact ⟨_, .fixed _ _ _ (nul_not_mem_lossy (zero_not_mem_takeWhile taken))⟩
  | terminated rest hbody => exact ⟨_, .terminated _ _ (nul_not_mem_lossy hbody)⟩
  | unterminated hbody => exact ⟨_, .terminated _ _ (nul_not_mem_lossy hbody)⟩

end ResourceLang.Proofs.SlotImage
