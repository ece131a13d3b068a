import Mathlib.Data.List.Infix
import ResourceLang.Text.Utf8

/-!
What reading UTF-8 back gives. Well-formed bytes are read as the text they write, whatever follows a
character, and reading makes no NUL out of bytes that hold no zero. A budget of bytes is used up as
far as whole characters allow.
-/

set_option autoImplicit false
set_option relaxedAutoImplicit false

namespace ResourceLang.Proofs.Utf8Reading

open Text.Utf8

/-- Bytes that write a text. -/
def WellFormed (bs : List UInt8) : Prop := ∃ cs, encode cs = bs

theorem encode_cons (c : Char) (cs : List Char) :
    encode (c :: cs) = String.utf8EncodeChar c ++ encode cs := by
  simp [encode]

theorem encode_ne_nil {cs : List Char} (h : cs ≠ []) : encode cs ≠ [] := by
  obtain ⟨c, cs, rfl⟩ := List.exists_cons_of_ne_nil h
  rw [encode_cons]
  exact List.append_ne_nil_of_left_ne_nil String.utf8EncodeChar_ne_nil _

theorem utf8ByteSize_ofList (cs : List Char) : (String.ofList cs).utf8ByteSize = size cs := by
  rw [← length_encode, ← String.size_toByteArray, String.toByteArray_ofList]
  simp [List.utf8Encode, encode]

/-! ### Characters -/

theorem front?_append (c : Char) (bs : List UInt8) :
    front? (String.utf8EncodeChar c ++ bs) = some c := by
  have hlength := c.utf8Size_le_four
  have htake : (String.utf8EncodeChar c ++ bs).take 4 =
      String.utf8EncodeChar c ++ bs.take (4 - c.utf8Size) := by
    rw [List.take_append, String.length_utf8EncodeChar,
      List.take_of_length_le (by rwa [String.length_utf8EncodeChar])]
  rw [front?, htake, List.toByteArray_append]
  exact ByteArray.utf8DecodeChar?_utf8EncodeChar_append

theorem prefix_of_front? {bs : List UInt8} {c : Char} (h : front? bs = some c) :
    String.utf8EncodeChar c <+: bs := by
  obtain ⟨tail, htail⟩ := ByteArray.exists_of_utf8DecodeChar?_eq_some h
  have hlist : bs.take 4 = String.utf8EncodeChar c ++ tail.data.toList := by
    have hdata := congrArg (fun bytes : ByteArray ↦ bytes.data.toList) htail
    simpa using hdata
  exact (List.prefix_append _ _).trans (hlist ▸ List.take_prefix 4 bs)

theorem toNat_ofNat_byte (b : UInt8) : (Char.ofNat b.toNat).toNat = b.toNat := by
  have hvalid : b.toNat < 0xD800 := Nat.lt_trans b.toNat_lt (by decide)
  rw [Char.ofNat, dif_pos (.inl hvalid)]
  rfl

theorem ascii_mem_utf8EncodeChar {c d : Char} (hd : d.toNat < 128) :
    UInt8.ofNat d.toNat ∈ String.utf8EncodeChar c ↔ c = d := by
  have hbyte (n : Nat) : UInt8.ofNat d.toNat = UInt8.ofNat n ↔ d.toNat = n % 256 := by
    rw [← UInt8.toNat_inj, UInt8.toNat_ofNat', UInt8.toNat_ofNat',
      Nat.mod_eq_of_lt (Nat.lt_trans hd (by decide))]
  rw [← Char.toNat_inj, String.utf8EncodeChar]
  dsimp only [Char.toNat] at hbyte hd ⊢
  -- Only the form of one byte can hold it: every byte of a longer one has its high bit set.
  split_ifs <;> simp only [List.mem_cons, List.not_mem_nil, or_false, hbyte] <;> omega

theorem ascii_mem_encode {d : Char} (hd : d.toNat < 128) {cs : List Char} :
    UInt8.ofNat d.toNat ∈ encode cs ↔ d ∈ cs := by
  induction cs with
  | nil => simp [encode]
  | cons c cs ih =>
    rw [encode_cons, List.mem_append, List.mem_cons, ascii_mem_utf8EncodeChar hd, ih, eq_comm]

theorem zero_mem_encode {cs : List Char} : 0 ∈ encode cs ↔ '\x00' ∈ cs :=
  @ascii_mem_encode '\x00' (by decide) cs

/-! ### Texts -/

theorem lossyFrom_encode_append (done cs : List Char) (bs : List UInt8) :
    lossyFrom done (encode cs ++ bs) = lossyFrom (cs.reverse ++ done) bs := by
  induction cs generalizing done with
  | nil => rfl
  | cons c cs ih =>
    obtain ⟨b, tail, hc⟩ := List.exists_cons_of_ne_nil (String.utf8EncodeChar_ne_nil (c := c))
    have htail : c.utf8Size - 1 = tail.length := by
      rw [← String.length_utf8EncodeChar, hc]
      rfl
    have hfront : front? (b :: (tail ++ (encode cs ++ bs))) = some c := by
      rw [← List.cons_append, ← hc]
      exact front?_append c _
    rw [encode_cons, List.append_assoc, hc, List.cons_append, lossyFrom]
    simp only [hfront]
    rw [htail, List.drop_left, ih, List.reverse_cons, List.append_assoc]
    rfl

theorem lossy_encode (cs : List Char) : lossy (encode cs) = String.ofList cs := by
  have h := lossyFrom_encode_append [] cs []
  rw [List.append_nil, List.append_nil] at h
  rw [lossy, h, lossyFrom, List.reverse_reverse]

theorem nul_not_mem_lossyFrom {done : List Char} {bs : List UInt8} (hdone : '\x00' ∉ done)
    (hbs : 0 ∉ bs) : '\x00' ∉ lossyFrom done bs := by
  fun_induction lossyFrom done bs with
  | case1 done => simpa using hdone
  | case2 done b bs c hfront ih =>
    have hc : c ≠ '\x00' := by
      rintro rfl
      exact hbs ((prefix_of_front? hfront).subset (List.mem_singleton_self 0))
    refine ih ?_ ?_
    · rw [List.mem_cons, not_or]
      exact ⟨hc.symm, hdone⟩
    · exact fun hmem ↦ hbs (List.mem_cons_of_mem b (List.mem_of_mem_drop hmem))
  | case3 done b bs _ ih =>
    refine ih ?_ ?_
    · rw [List.mem_cons, not_or]
      exact ⟨by decide, hdone⟩
    · exact fun hmem ↦ hbs (List.mem_cons_of_mem b (List.mem_of_mem_drop hmem))

theorem nul_not_mem_lossy {bs : List UInt8} (h : 0 ∉ bs) : '\x00' ∉ (lossy bs).toList := by
  rw [lossy, String.toList_ofList]
  exact nul_not_mem_lossyFrom List.not_mem_nil h

/-! ### Budgets -/

/-- The longest prefix of whole characters that takes at most `budget` bytes. -/
structure LongestWithin (budget : Nat) (cs kept : List Char) : Prop where
  isPrefix : kept <+: cs
  size_le : size kept ≤ budget
  longest : ∀ other, other <+: cs → size other ≤ budget → other <+: kept

theorem longestWithin_prefixWithin (budget : Nat) (cs : List Char) :
    LongestWithin budget cs (prefixWithin budget cs) where
  isPrefix := prefixWithin_isPrefix budget cs
  size_le := size_prefixWithin_le budget cs
  longest := by
    induction cs generalizing budget with
    | nil =>
      intro other hother _
      exact (List.prefix_nil.mp hother) ▸ List.nil_prefix
    | cons c cs ih =>
      intro other hother hsize
      cases other with
      | nil => exact List.nil_prefix
      | cons d other =>
        obtain ⟨rfl, htail⟩ := List.cons_prefix_cons.mp hother
        simp only [size] at hsize
        rw [prefixWithin, if_pos (by omega)]
        exact List.cons_prefix_cons.mpr ⟨rfl, ih _ other htail (by omega)⟩

theorem prefixWithin_of_size_le {budget : Nat} {cs : List Char} (h : size cs ≤ budget) :
    prefixWithin budget cs = cs := by
  have hall := (longestWithin_prefixWithin budget cs).longest cs (List.prefix_refl cs) h
  exact (prefixWithin_isPrefix budget cs).eq_of_length_le hall.length_le

end ResourceLang.Proofs.Utf8Reading
