import Mathlib.Tactic.SplitIfs
import ResourceLang.Token.Scan

/-!
The rules by which a token is cut off, each with the texts that it applies to. One rule applies to
every text that is not empty, and no second one: what it comes to is what `cut` comes to.
-/

set_option autoImplicit false
set_option relaxedAutoImplicit false

namespace ResourceLang.Proofs.CutRules

open Token Token.Scan

/-- The rule that applies to the character `c` and what is behind it comes to `result`. -/
inductive ByRule (mode : Mode) (c : Char) (cs : List Char) (result : Except Halt Cut) : Prop
  | directive (hc : c = '@') (hcut : .ok (cutName .directive mode '@' cs) = result)
  | string (hc : c = '"') (hcut : cutString mode cs = result)
  | resourceId (hc : c = '#') (hcut : cutResourceId mode cs = result)
  | dollar (hc : c = '$') (hcut : cutDollar mode cs = result)
  | hexadecimal {x : Char} {digits : List Char} (hc : c = '0')
      (hhex : hexAfterZero? cs = some (x, digits))
      (hcut : .ok (cutHex mode x digits) = result)
  | number (hc : c.isDigit = true) (hhex : c = '0' → hexAfterZero? cs = none)
      (hcut : .ok (cutNumber mode [] (c :: cs)) = result)
  | negative (hc : c = '-') (hdigit : cs.head?.any Char.isDigit = true)
      (hcut : .ok (cutNumber mode ['-'] cs) = result)
  | identifier (hc : isWordStart c = true) (hcut : .ok (cutIdentifier mode c cs) = result)
  | symbol (hmark : c ∉ ['@', '"', '#', '$']) (hdigit : c.isDigit = false)
      (hstart : isWordStart c = false)
      (hminus : ¬ (c = '-' ∧ cs.head?.any Char.isDigit = true))
      (hcut : cutSymbol mode c cs = result)

variable {mode : Mode} {c : Char} {cs : List Char} {result : Except Halt Cut}

theorem byRule_of_cut (h : cut mode c cs = result) : ByRule mode c cs result := by
  unfold cut at h
  split at h
  · exact .directive ‹_› h
  rename_i hdirective
  split at h
  · exact .string ‹_› h
  rename_i hstring
  split at h
  · exact .resourceId ‹_› h
  rename_i hid
  split at h
  · exact .dollar ‹_› h
  rename_i hdollar
  split at h
  · rename_i hdigit
    split at h
    · rename_i x digits hhex
      split_ifs at hhex with hzero
      exact .hexadecimal hzero hhex h
    · rename_i hhex
      refine .number hdigit (fun hzero ↦ ?_) h
      rwa [if_pos hzero] at hhex
  rename_i hdigit
  split at h
  · rename_i hminus
    exact .negative hminus.1 hminus.2 h
  rename_i hminus
  split at h
  · exact .identifier ‹_› h
  · rename_i hstart
    exact .symbol (by simp [hdirective, hstring, hid, hdollar]) (by simpa using hdigit)
      (by simpa using hstart)
      hminus h

theorem not_isDigit_of_isWordStart (h : isWordStart c = true) : c.isDigit = false := by
  rw [isWordStart, Bool.or_eq_true, decide_eq_true_eq] at h
  rcases h with h | rfl
  · -- Every letter has a greater code than `9`.
    have hletter : 58 ≤ c.toNat := by
      rcases Bool.or_eq_true_iff.mp h with h | h
      · have hupper : 'A'.val ≤ c.val := (of_decide_eq_true h).1
        exact Nat.le_trans (by decide) hupper
      · have hlower : 'a'.val ≤ c.val := of_decide_eq_true (Bool.and_eq_true_iff.mp h).1
        exact Nat.le_trans (by decide) hlower
    rw [Bool.eq_false_iff, ne_eq, Char.isDigit_iff_toNat]
    exact fun hdigit ↦ absurd hdigit.2 (Nat.not_le_of_lt hletter)
  · rfl

/-- A character of a class is none that the class leaves out. -/
theorem ne_of_class {p : Char → Bool} (h : p c = true) {other : Char} (hother : p other = false) :
    c ≠ other := by
  rintro rfl
  rw [h] at hother
  cases hother

theorem cut_of_byRule (h : ByRule mode c cs result) : cut mode c cs = result := by
  cases h with
  | directive hc hcut =>
    subst hc
    exact hcut
  | string hc hcut =>
    subst hc
    exact hcut
  | resourceId hc hcut =>
    subst hc
    exact hcut
  | dollar hc hcut =>
    subst hc
    exact hcut
  | hexadecimal hc hhex hcut =>
    subst hc
    rw [cut, if_neg (by decide), if_neg (by decide), if_neg (by decide), if_neg (by decide),
      if_pos (by decide), if_pos rfl, hhex]
    exact hcut
  | number hc hhex hcut =>
    have hnone : (if c = '0' then hexAfterZero? cs else none) = none := by
      split_ifs with hzero
      · exact hhex hzero
      · rfl
    rw [cut, if_neg (ne_of_class hc rfl), if_neg (ne_of_class hc rfl), if_neg (ne_of_class hc rfl),
      if_neg (ne_of_class hc rfl), if_pos hc, hnone]
    exact hcut
  | negative hc hdigit hcut =>
    subst hc
    rw [cut, if_neg (by decide), if_neg (by decide), if_neg (by decide), if_neg (by decide),
      if_neg (by decide), if_pos ⟨rfl, hdigit⟩, hcut]
  | identifier hc hcut =>
    have hdigit := not_isDigit_of_isWordStart hc
    rw [cut, if_neg (ne_of_class hc rfl), if_neg (ne_of_class hc rfl), if_neg (ne_of_class hc rfl),
      if_neg (ne_of_class hc rfl), if_neg (by simp [hdigit]),
      if_neg fun hminus ↦ ne_of_class hc rfl hminus.1, if_pos hc, hcut]
  | symbol hmark hdigit hstart hminus hcut =>
    simp only [List.mem_cons, List.not_mem_nil, not_or] at hmark
    obtain ⟨hdirective, hstring, hid, hdollar, -⟩ := hmark
    rw [cut, if_neg hdirective, if_neg hstring, if_neg hid, if_neg hdollar,
      if_neg (by simp [hdigit]), if_neg hminus, if_neg (by simp [hstart]), hcut]

end ResourceLang.Proofs.CutRules
