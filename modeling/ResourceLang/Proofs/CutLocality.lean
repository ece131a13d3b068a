import ResourceLang.Proofs.CutSoundness
import ResourceLang.Proofs.SpelledLexemes

/-!
What is cut off the front of a text does not hang on a blank at its end or on anything behind that
blank. Every run of characters that a rule follows ends at the blank, if not before, and no rule
looks past it: where it meets the blank it does what it does where the text ends.
-/

set_option autoImplicit false
set_option relaxedAutoImplicit false

namespace ResourceLang.Proofs.CutLocality

open Token Token.Scan LexemeGrammar CutRules SpelledLexemes CutSoundness

/-- The token with more text behind what it leaves. -/
def extend (result : Cut) (tail : List Char) : Cut :=
  ⟨result.lexeme, result.taken, result.rest ++ tail, result.mode⟩

variable {tail : List Char}

/-! ### Runs and lookahead -/

/-- A run that stops within the text, or where it ends, goes no further. -/
theorem takeWhile_append_of_local (p : Char → Bool) (cs : List Char)
    (h : cs.dropWhile p ≠ [] ∨ ∀ c ∈ tail.head?, p c = false) :
    (cs ++ tail).takeWhile p = cs.takeWhile p ∧
      (cs ++ tail).dropWhile p = cs.dropWhile p ++ tail := by
  induction cs with
  | nil =>
    rcases h with h | h
    · exact absurd rfl h
    · cases tail with
      | nil => exact ⟨rfl, rfl⟩
      | cons c tail =>
        have hc : ¬ p c = true := by simp [h c rfl]
        exact ⟨List.takeWhile_cons_of_neg hc, List.dropWhile_cons_of_neg hc⟩
  | cons c cs ih =>
    by_cases hc : p c = true
    · rw [List.dropWhile_cons_of_pos hc] at h
      obtain ⟨htake, hdrop⟩ := ih h
      rw [List.cons_append, List.takeWhile_cons_of_pos hc, List.takeWhile_cons_of_pos hc,
        List.dropWhile_cons_of_pos hc, List.dropWhile_cons_of_pos hc, htake, hdrop]
      exact ⟨rfl, rfl⟩
    · rw [List.cons_append, List.takeWhile_cons_of_neg hc, List.takeWhile_cons_of_neg hc,
        List.dropWhile_cons_of_neg hc, List.dropWhile_cons_of_neg hc]
      exact ⟨rfl, rfl⟩

/-- A class without blanks is not met behind the text either where it is not met in it. -/
theorem head?_any_append {p : Char → Bool} (hp : [' ', '\t', '\n', '\r'].any p = false)
    (htail : Stops tail) (cs : List Char) : (cs ++ tail).head?.any p = cs.head?.any p := by
  cases cs with
  | cons c cs => rfl
  | nil =>
    cases tail with
    | nil => rfl
    | cons c tail => exact stops_class hp htail c rfl

theorem head?_append_eq_iff {d : Char} (hd : isBlank d = false) (htail : Stops tail)
    (cs : List Char) : (cs ++ tail).head? = some d ↔ cs.head? = some d := by
  cases cs with
  | cons c cs => exact Iff.rfl
  | nil => exact iff_of_false (head?_ne_of_stops htail hd) (by simp)

theorem drop_one_append {cs : List Char} {d : Char} (h : cs.head? = some d) :
    (cs ++ tail).drop 1 = cs.drop 1 ++ tail := by
  cases cs with
  | nil => cases h
  | cons c cs => rfl

/-! ### Rules -/

theorem cutName_local (htail : Stops tail) (kind : Kind) (mode : Mode) (mark : Char)
    (cs : List Char) :
    cutName kind mode mark (cs ++ tail) = extend (cutName kind mode mark cs) tail := by
  obtain ⟨htake, hdrop⟩ :=
    takeWhile_append_of_local isWord cs (.inr (stops_class rfl htail))
  rw [cutName, htake, hdrop]
  rfl

theorem cutIdentifier_local (htail : Stops tail) (mode : Mode) (first : Char) (cs : List Char) :
    cutIdentifier mode first (cs ++ tail) = extend (cutIdentifier mode first cs) tail := by
  obtain ⟨htake, hdrop⟩ :=
    takeWhile_append_of_local isWord cs (.inr (stops_class rfl htail))
  rw [cutIdentifier, htake, hdrop]
  rfl

theorem cutHex_local (htail : Stops tail) (mode : Mode) (x : Char) (cs : List Char) :
    cutHex mode x (cs ++ tail) = extend (cutHex mode x cs) tail := by
  obtain ⟨htake, hdrop⟩ :=
    takeWhile_append_of_local isHexDigit cs (.inr (stops_class rfl htail))
  rw [cutHex, htake, hdrop]
  rfl

theorem hexAfterZero?_local (htail : Stops tail) (cs : List Char) :
    hexAfterZero? (cs ++ tail) = (hexAfterZero? cs).map fun found ↦ (found.1, found.2 ++ tail) := by
  have hdigit := stops_class (p := isHexDigit) rfl htail
  have hx := stops_class (p := fun c ↦ c = 'x' || c = 'X') rfl htail
  rcases cs with _ | ⟨x, _ | ⟨d, cs⟩⟩
  · rcases tail with _ | ⟨x, _ | ⟨d, tail⟩⟩
    · rfl
    · rfl
    · have hnot : ¬ (x = 'x' ∨ x = 'X') := by simpa using hx x rfl
      exact if_neg fun hcase ↦ hnot hcase.1
  · rcases tail with _ | ⟨d, tail⟩
    · rfl
    · simp [hexAfterZero?, hdigit d rfl]
  · simp only [List.cons_append, hexAfterZero?]
    split <;> rfl

theorem cutNumber_local (htail : Stops tail) (mode : Mode) (sign cs : List Char) :
    cutNumber mode sign (cs ++ tail) = extend (cutNumber mode sign cs) tail := by
  obtain ⟨htake, hdrop⟩ :=
    takeWhile_append_of_local Char.isDigit cs (.inr (stops_class rfl htail))
  have hpercent := head?_append_eq_iff (d := '%') rfl htail (cs.dropWhile Char.isDigit)
  unfold cutNumber
  rw [htake, hdrop]
  split
  · rename_i rest hrest
    obtain ⟨cs', hcs⟩ := List.head?_eq_some_iff.mp (hpercent.mp (by rw [hrest]; rfl))
    rw [hcs] at hrest ⊢
    obtain rfl : cs' ++ tail = rest := (List.cons.inj hrest).2
    rfl
  · rename_i hrest
    split
    · rename_i rest hcs
      rw [hcs] at hrest
      exact absurd rfl (hrest _)
    · rfl

/-- A string that ends within the text ends there whatever is behind, blank or not. -/
theorem cutString_local {mode : Mode} {cs : List Char} {result : Cut}
    (h : cutString mode cs = .ok result) (tail : List Char) :
    cutString mode (cs ++ tail) = .ok (extend result tail) := by
  unfold cutString at h ⊢
  split at h
  · cases h
  · rename_i quote rest hrest
    have hends : cs.dropWhile isStringBody ≠ [] := by simp [hrest]
    obtain ⟨htake, hdrop⟩ := @takeWhile_append_of_local tail isStringBody cs (.inl hends)
    obtain rfl := Except.ok.inj h
    rw [htake, hdrop, hrest]
    rfl

theorem splitNames_local (htail : Stops tail) (count : Nat) (cs : List Char) :
    splitNames count (cs ++ tail) =
      ((splitNames count cs).1, (splitNames count cs).2 ++ tail) := by
  induction count generalizing cs with
  | zero => rfl
  | succ count ih =>
    obtain ⟨htake, hdrop⟩ :=
      takeWhile_append_of_local isWord cs (.inr (stops_class rfl htail))
    by_cases hdot : (cs.dropWhile isWord).head? = some '.'
    · obtain ⟨rest, hrest⟩ := List.head?_eq_some_iff.mp hdot
      rw [splitNames, splitNames, htake, hdrop, hrest]
      simp only [List.cons_append, ih rest]
      split <;> rfl
    · have hnone (cs : List Char) (hcs : (cs.dropWhile isWord).head? ≠ some '.') :
          splitNames (count + 1) cs = ([], cs) :=
        splitNames_of_not_dotted (fun rest hrest ↦ hcs (by rw [hrest]; rfl)) (count + 1)
      rw [hnone cs hdot, hnone (cs ++ tail)]
      rwa [hdrop, ne_eq, head?_append_eq_iff rfl htail]

theorem splitSign_local (htail : Stops tail) (cs : List Char) :
    splitSign (cs ++ tail) = ((splitSign cs).1, (splitSign cs).2 ++ tail) := by
  by_cases hminus : cs.head? = some '-'
  · obtain ⟨rest, rfl⟩ := List.head?_eq_some_iff.mp hminus
    rfl
  · rw [splitSign_of_head?_ne hminus, splitSign_of_head?_ne]
    rwa [ne_eq, head?_append_eq_iff rfl htail]

theorem cutResourceId_local (htail : Stops tail) {mode : Mode} {cs : List Char} {result : Cut}
    (h : cutResourceId mode cs = .ok result) :
    cutResourceId mode (cs ++ tail) = .ok (extend result tail) := by
  unfold cutResourceId at h
  split at h
  · obtain rfl := Except.ok.inj h
    rfl
  · cases h
  · rename_i hauto hne
    simp only [] at h
    split at h
    · cases h
    · rename_i hdigits
      obtain rfl := Except.ok.inj h
      have hnames := splitNames_local htail 2 cs
      have hsign := splitSign_local htail (splitNames 2 cs).2
      obtain ⟨htake, hdrop⟩ := takeWhile_append_of_local Char.isDigit
        (splitSign (splitNames 2 cs).2).2 (.inr (stops_class rfl htail))
      -- A text with a digit in it is not completed to `auto` by what is behind.
      have hnot : ¬ "auto".toList <+: cs ++ tail := by
        obtain ⟨digit, hdigit⟩ := List.exists_mem_of_ne_nil _ (mt List.isEmpty_iff.mpr hdigits)
        refine not_auto_append ⟨digit, ?_, forall_takeWhile Char.isDigit _ digit hdigit⟩ ?_
        · exact (components_isPrefix cs).subset (by simp [hdigit])
        · rintro ⟨rest, rfl⟩
          exact hauto rest rfl
      unfold cutResourceId
      split
      · rename_i rest hcs
        exact absurd ⟨rest, hcs.symm⟩ hnot
      · rename_i hcs
        exact absurd (List.append_eq_nil_iff.mp hcs).1 hne
      · rw [hnames]
        simp only [hsign, htake, hdrop]
        rw [if_neg hdigits]
        rfl

theorem cutDollar_local (htail : Stops tail) {mode : Mode} {cs : List Char} {result : Cut}
    (h : cutDollar mode cs = .ok result) :
    cutDollar mode (cs ++ tail) = .ok (extend result tail) := by
  unfold cutDollar at h
  split at h
  · cases h
  · cases h
  · rename_i c rest
    rw [List.cons_append, cutDollar]
    split_ifs at h ⊢
    · obtain rfl := Except.ok.inj h
      rfl
    · obtain rfl := Except.ok.inj h
      exact congrArg _ (cutName_local htail .variableName .outside '$' (c :: rest))

theorem cutSymbol_local (htail : Stops tail) {mode : Mode} {c : Char} {cs : List Char}
    {result : Cut} (h : cutSymbol mode c cs = .ok result) :
    cutSymbol mode c (cs ++ tail) = .ok (extend result tail) := by
  unfold cutSymbol at h ⊢
  simp only [head?_append_eq_iff (d := '<') rfl htail, head?_append_eq_iff (d := '>') rfl htail]
  split at h
  · rename_i hleft
    obtain rfl := Except.ok.inj h
    rw [if_pos hleft, drop_one_append hleft.2]
    rfl
  rename_i hleft
  rw [if_neg hleft]
  split at h
  · rename_i hright
    obtain rfl := Except.ok.inj h
    rw [if_pos hright, drop_one_append hright.2]
    rfl
  rename_i hright
  rw [if_neg hright]
  -- The symbols of one character look at nothing behind them.
  split_ifs at h ⊢
  · obtain rfl := Except.ok.inj h
    rfl
  · obtain rfl := Except.ok.inj h
    rfl
  · split at h
    · obtain rfl := Except.ok.inj h
      rfl
    · cases h

/-- What is cut off is cut off as well where a blank and any text stand behind. -/
theorem cut_local (htail : Stops tail) {mode : Mode} {c : Char} {cs : List Char} {result : Cut}
    (h : cut mode c cs = .ok result) : cut mode c (cs ++ tail) = .ok (extend result tail) := by
  refine cut_of_byRule ?_
  cases byRule_of_cut h with
  | directive hc hcut =>
    obtain rfl := Except.ok.inj hcut
    exact .directive hc (congrArg _ (cutName_local htail .directive mode '@' cs))
  | string hc hcut => exact .string hc (cutString_local hcut tail)
  | resourceId hc hcut => exact .resourceId hc (cutResourceId_local htail hcut)
  | dollar hc hcut => exact .dollar hc (cutDollar_local htail hcut)
  | @hexadecimal x digits hc hhex hcut =>
    obtain rfl := Except.ok.inj hcut
    have hmore : hexAfterZero? (cs ++ tail) = some (x, digits ++ tail) := by
      rw [hexAfterZero?_local htail, hhex]
      rfl
    exact .hexadecimal hc hmore (congrArg _ (cutHex_local htail mode x digits))
  | number hc hhex hcut =>
    obtain rfl := Except.ok.inj hcut
    refine .number hc (fun hzero ↦ ?_) (congrArg _ (cutNumber_local htail mode [] (c :: cs)))
    rw [hexAfterZero?_local htail, hhex hzero]
    rfl
  | negative hc hdigit hcut =>
    obtain rfl := Except.ok.inj hcut
    refine .negative hc ?_ (congrArg _ (cutNumber_local htail mode ['-'] cs))
    rwa [head?_any_append rfl htail]
  | identifier hc hcut =>
    obtain rfl := Except.ok.inj hcut
    exact .identifier hc (congrArg _ (cutIdentifier_local htail mode c cs))
  | symbol hmark hdigit hstart hminus hcut =>
    refine .symbol hmark hdigit hstart ?_ (cutSymbol_local htail hcut)
    rwa [head?_any_append rfl htail]

end ResourceLang.Proofs.CutLocality
