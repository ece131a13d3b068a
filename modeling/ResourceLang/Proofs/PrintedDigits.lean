import Mathlib.Tactic.FinCases
import ResourceLang.Proofs.PairedDigits

/-!
Numbers as they are printed. The digits that a number is printed with are digits of its radix and
denote the number again; zeros in front of them and capital letters make no difference to that.
-/

set_option autoImplicit false
set_option relaxedAutoImplicit false

namespace ResourceLang.Proofs.PrintedDigits

open Text Token.Scan LexemeGrammar NumericTokens PairedDigits

/-! ### Digits of a radix -/

/-- The digits that a number is printed with, capital letters apart. -/
def lowerDigits : List Char :=
  ['0', '1', '2', '3', '4', '5', '6', '7', '8', '9', 'a', 'b', 'c', 'd', 'e', 'f']

theorem digitChar_spec {d : Nat} (h : d < 16) :
    d.digitChar ∈ lowerDigits ∧ digitValue d.digitChar = d := by
  interval_cases d <;> decide

theorem isHexDigit_of_mem {c : Char} (h : c ∈ lowerDigits) :
    isHexDigit c = true ∧ isHexDigit c.toUpper = true ∧ digitValue c.toUpper = digitValue c := by
  rw [lowerDigits] at h
  fin_cases h <;> decide

/-- What holds of the digits of a radix holds of all that a number is printed with. -/
theorem forall_mem_toDigits {radix : Nat} {p : Char → Prop} (hradix : 1 < radix)
    (h : ∀ d < radix, p d.digitChar) (n : Nat) : ∀ c ∈ Nat.toDigits radix n, p c := by
  induction n using Nat.strong_induction_on with
  | _ n ih =>
    rw [Nat.toDigits_eq_if hradix]
    split_ifs with hn
    · exact List.forall_mem_singleton.mpr (h n hn)
    · have hpos : 0 < n := by omega
      rw [List.forall_mem_append]
      exact ⟨ih (n / radix) (Nat.div_lt_self hpos hradix),
        List.forall_mem_singleton.mpr (h _ (Nat.mod_lt _ (by omega)))⟩

theorem value_toDigits {radix : Nat} (hlow : 1 < radix) (hhigh : radix ≤ 16) (n : Nat) :
    value radix (Nat.toDigits radix n) = n := by
  induction n using Nat.strong_induction_on with
  | _ n ih =>
    have hdigit : digitValue (n % radix).digitChar = n % radix :=
      (digitChar_spec ((Nat.mod_lt n (by omega)).trans_le hhigh)).2
    rw [Nat.toDigits_eq_if hlow]
    split_ifs with hn
    · rw [Nat.mod_eq_of_lt hn] at hdigit
      simp [value, hdigit]
    · have hpos : 0 < n := by omega
      rw [value_concat, ih (n / radix) (Nat.div_lt_self hpos hlow), hdigit]
      exact Nat.div_add_mod' n radix

theorem isDigits_toDigits (n : Nat) : IsDigits (Nat.toDigits 10 n) :=
  ⟨Nat.toDigits_ne_nil, fun _ ↦ Nat.isDigit_of_mem_toDigits (by decide) (by decide)⟩

/-! ### Padded digits -/

theorem value_cons_zero (radix : Nat) (digits : List Char) :
    value radix ('0' :: digits) = value radix digits := by
  have hzero : digitValue '0' = 0 := by decide
  simp [value, Nat.ofDigits_append, hzero]

theorem value_replicate_append (radix count : Nat) (digits : List Char) :
    value radix (List.replicate count '0' ++ digits) = value radix digits := by
  induction count with
  | zero => rfl
  | succ count ih => rw [List.replicate_succ, List.cons_append, value_cons_zero, ih]

/-- Hexadecimal digits at a width: as many as the width where the number is not too great for
them. -/
structure Prints (width n : Nat) (digits : List Char) : Prop where
  length : digits.length = width
  lower : ∀ c ∈ digits, c ∈ lowerDigits
  denotes : value 16 digits = n

theorem prints_hex {width n : Nat} (hwidth : 0 < width) (hn : n < 16 ^ width) :
    Prints width n (Numeral.hex width n) where
  length := by
    have hlength := (Nat.length_toDigits_le_iff (by decide) hwidth).mpr hn
    rw [Numeral.hex, List.length_leftpad]
    exact Nat.max_eq_left hlength
  lower := by
    rw [Numeral.hex, List.leftpad, List.forall_mem_append]
    constructor
    · intro c hc
      rw [List.eq_of_mem_replicate hc]
      decide
    · exact forall_mem_toDigits (by decide) (fun d hd ↦ (digitChar_spec hd).1) n
  denotes := by
    rw [Numeral.hex, List.leftpad, value_replicate_append, value_toDigits (by decide) le_rfl]

/-! ### Bytes -/

/-- A byte is printed as the pair of digits that it is read from. -/
theorem hex_byte (b : UInt8) : ∃ high low, Numeral.hex 2 b.toNat = [high, low] ∧
    high ∈ lowerDigits ∧ low ∈ lowerDigits ∧ byteOf high low = b := by
  have hprints := @prints_hex 2 b.toNat (by decide) b.toNat_lt
  obtain ⟨high, low, hpair⟩ := List.length_eq_two.mp hprints.length
  have hdigits := hprints.lower
  have hvalue := hprints.denotes
  rw [hpair] at hdigits hvalue
  rw [value_pair] at hvalue
  refine ⟨high, low, hpair, hdigits high (by simp), hdigits low (by simp), ?_⟩
  rw [byteOf, hvalue, UInt8.ofNat_toNat]

/-- Data as capital digits, two for each byte. -/
def capitals (data : List UInt8) : List Char := data.flatMap fun b ↦ Numeral.upperHex 2 b.toNat

theorem upperHex_byte (b : UInt8) : ∃ high low, Numeral.upperHex 2 b.toNat = [high, low] ∧
    isHexDigit high = true ∧ isHexDigit low = true ∧ byteOf high low = b := by
  obtain ⟨high, low, hpair, hhigh, hlow, hbyte⟩ := hex_byte b
  obtain ⟨-, hhigh, hhighValue⟩ := isHexDigit_of_mem hhigh
  obtain ⟨-, hlow, hlowValue⟩ := isHexDigit_of_mem hlow
  refine ⟨high.toUpper, low.toUpper, by rw [Numeral.upperHex, hpair]; rfl, hhigh, hlow, ?_⟩
  rw [← hbyte, byteOf, byteOf, hhighValue, hlowValue]

theorem capitals_spec (data : List UInt8) :
    AllHex (capitals data) ∧ bytesOf (capitals data) = data := by
  -- Digits are taken in pairs from the last one on, so the induction takes bytes off the end.
  induction data using List.reverseRecOn with
  | nil => exact ⟨List.forall_mem_nil _, rfl⟩
  | append_singleton data b ih =>
    obtain ⟨high, low, hpair, hhigh, hlow, hbyte⟩ := upperHex_byte b
    have hcons : capitals (data ++ [b]) = capitals data ++ [high, low] := by
      rw [capitals, List.flatMap_append, List.flatMap_singleton, hpair, capitals]
    rw [hcons, allHex_append_pair, bytesOf_append, ih.2, hbyte]
    exact ⟨⟨ih.1, hhigh, hlow⟩, rfl⟩

end ResourceLang.Proofs.PrintedDigits
