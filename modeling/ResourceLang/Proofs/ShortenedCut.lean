import ResourceLang.Proofs.CutSoundness
import ResourceLang.Proofs.SpelledLexemes

/-!
A token does not hang on what is behind the characters that it takes. Where the text is cut off
behind them, or further on, the same token is cut off its front: no rule takes a token because of a
character that it leaves.
-/

set_option autoImplicit false
set_option relaxedAutoImplicit false

namespace ResourceLang.Proofs.ShortenedCut

open Token Token.Scan LexemeGrammar CutRules SpelledLexemes CutSoundness

/-- The token with another text behind what it takes. -/
def leaving (result : Cut) (rest : List Char) : Cut :=
  ⟨result.lexeme, result.taken, rest, result.mode⟩

variable {cs keep tail : List Char} {mode : Mode} {result : Cut}

/-! ### Runs and names -/

/-- A run that ends within the shorter text is the same in it. -/
theorem takeWhile_of_dropWhile_append (p : Char → Bool)
    (h : (cs ++ tail).dropWhile p = keep ++ tail) :
    cs.takeWhile p = (cs ++ tail).takeWhile p ∧ cs.dropWhile p = keep := by
  induction cs with
  | nil =>
    rw [List.nil_append] at h ⊢
    have hlength := (List.dropWhile_suffix p (l := tail)).length_le
    rw [h, List.length_append] at hlength
    obtain rfl := List.eq_nil_of_length_eq_zero (by omega : keep.length = 0)
    have hsplit := List.takeWhile_append_dropWhile (p := p) (l := tail)
    rw [h, List.nil_append, List.append_left_eq_self] at hsplit
    exact ⟨hsplit.symm, rfl⟩
  | cons c cs ih =>
    by_cases hc : p c = true
    · rw [List.cons_append, List.dropWhile_cons_of_pos hc] at h
      obtain ⟨htake, hdrop⟩ := ih h
      rw [List.cons_append, List.takeWhile_cons_of_pos hc, List.takeWhile_cons_of_pos hc,
        List.dropWhile_cons_of_pos hc, htake, hdrop]
      exact ⟨rfl, rfl⟩
    · rw [List.cons_append, List.dropWhile_cons_of_neg hc] at h
      rw [List.cons_append, List.takeWhile_cons_of_neg hc, List.takeWhile_cons_of_neg hc,
        List.dropWhile_cons_of_neg hc]
      exact ⟨rfl, List.append_cancel_right h⟩

theorem head?_any_of_takeWhile_ne_nil {p : Char → Bool} (h : cs.takeWhile p ≠ []) :
    cs.head?.any p = true := by
  cases cs with
  | nil => exact absurd rfl h
  | cons c cs =>
    by_contra hc
    exact h (List.takeWhile_cons_of_neg hc)

theorem head?_append_of_eq_some {c : Char} (h : cs.head? = some c) :
    (cs ++ tail).head? = some c := by
  rw [List.head?_append, h]
  rfl

theorem head?_any_append_of_any {p : Char → Bool} (h : cs.head?.any p = true) :
    (cs ++ tail).head?.any p = true := by
  cases cs with
  | nil => cases h
  | cons c cs => exact h

/-- Where one character is passed over within the shorter text, it stands in front of it. -/
theorem cons_of_drop_append {c : Char} (hhead : (cs ++ tail).head? = some c)
    (h : (cs ++ tail).drop 1 = keep ++ tail) : cs = c :: keep := by
  obtain ⟨rest, hrest⟩ := List.head?_eq_some_iff.mp hhead
  rw [hrest] at h
  obtain rfl : rest = keep ++ tail := h
  exact List.append_cancel_right hrest

/-- The names that each end in a dot at the front of a text, as many as there are but at most
`count`, and what is left behind them. -/
inductive Names : (count : Nat) → (cs : List Char) → (names : List (List Char)) →
    (left : List Char) → Prop
  | full (cs : List Char) : Names 0 cs [] cs
  | stop {count : Nat} {cs : List Char}
      (hnone : ∀ name rest, IsWord name → cs ≠ name ++ '.' :: rest) : Names (count + 1) cs [] cs
  | name {count : Nat} {name rest left : List Char} {names : List (List Char)} (hname : IsWord name)
      (hrest : Names count rest names left) :
    Names (count + 1) (name ++ '.' :: rest) (name :: names) left

theorem splitNames_of_names {count : Nat} {names : List (List Char)} {left : List Char}
    (h : Names count cs names left) : splitNames count cs = (names, left) := by
  induction h with
  | full cs => rfl
  | @stop count cs hnone =>
    rw [splitNames]
    split
    · rename_i rest hdot
      have hsplit := List.takeWhile_append_dropWhile (p := isWord) (l := cs)
      rw [hdot] at hsplit
      refine if_pos (List.isEmpty_iff.mpr ?_)
      by_contra hname
      exact hnone _ rest ⟨hname, forall_takeWhile isWord cs⟩ hsplit.symm
    · rfl
  | @name count name rest left names hname _ ih =>
    have hdot : ∀ c ∈ ('.' :: rest).head?, isWord c = false := by
      intro c hc
      obtain rfl : '.' = c := Option.some.inj hc
      rfl
    obtain ⟨htake, hdrop⟩ := takeWhile_append_of_stop hname.2 hdot
    rw [splitNames, htake, hdrop]
    simp only [ih]
    exact if_neg (by simpa using hname.1)

theorem names_splitNames (count : Nat) (cs : List Char) :
    Names count cs (splitNames count cs).1 (splitNames count cs).2 := by
  induction count generalizing cs with
  | zero => exact .full cs
  | succ count ih =>
    by_cases hname : ∃ name rest, IsWord name ∧ cs = name ++ '.' :: rest
    · obtain ⟨name, rest, hname, rfl⟩ := hname
      have hnames := Names.name hname (ih rest)
      rwa [splitNames_of_names hnames]
    · have hstop : Names (count + 1) cs [] cs :=
        .stop fun name rest hword hcs ↦ hname ⟨name, rest, hword, hcs⟩
      rwa [splitNames_of_names hstop]

theorem names_append {count : Nat} {names : List (List Char)} {left : List Char}
    (h : Names count cs names left) : names.flatMap (· ++ ['.']) ++ left = cs := by
  have hsplit := splitNames_append count cs
  rwa [splitNames_of_names h] at hsplit

/-- Names that end within the shorter text are the same in it. -/
theorem names_shortened {count : Nat} {names : List (List Char)}
    (h : Names count (cs ++ tail) names (keep ++ tail)) : Names count cs names keep := by
  generalize hwhole : cs ++ tail = whole at h
  generalize hleft : keep ++ tail = left at h
  induction h generalizing cs with
  | full whole =>
    obtain rfl := List.append_cancel_right (hleft.trans hwhole.symm)
    exact .full keep
  | stop hnone =>
    obtain rfl := List.append_cancel_right (hleft.trans hwhole.symm)
    refine .stop fun name rest hword hkeep ↦ hnone name (rest ++ tail) hword ?_
    rw [← hleft, hkeep, List.append_assoc, List.cons_append]
  | @name count name rest left names hname hrest ih =>
    have hsplit := names_append hrest
    rw [← hleft, ← List.append_assoc] at hsplit
    rw [← hsplit, ← List.cons_append, ← List.append_assoc] at hwhole
    obtain rfl := List.append_cancel_right hwhole
    exact .name hname (ih hsplit hleft)

theorem splitNames_shortened {count : Nat} (h : (splitNames count (cs ++ tail)).2 = keep ++ tail) :
    splitNames count cs = ((splitNames count (cs ++ tail)).1, keep) := by
  have hnames := names_splitNames count (cs ++ tail)
  rw [h] at hnames
  exact splitNames_of_names (names_shortened hnames)

theorem splitSign_shortened (h : (splitSign (cs ++ tail)).2 = keep ++ tail) :
    splitSign cs = ((splitSign (cs ++ tail)).1, keep) := by
  unfold splitSign at h ⊢
  split at h
  · rename_i rest hminus
    have hrest : rest = keep ++ tail := h
    rw [hrest, ← List.cons_append] at hminus
    obtain rfl := List.append_cancel_right hminus
    rfl
  · rename_i hother
    obtain rfl := List.append_cancel_right h
    split
    · rename_i rest
      exact (hother (rest ++ tail) rfl).elim
    · rfl

/-! ### Rules -/

theorem cutName_shortened {kind : Kind} {mark : Char}
    (h : (cutName kind mode mark (cs ++ tail)).rest = keep ++ tail) :
    cutName kind mode mark cs = leaving (cutName kind mode mark (cs ++ tail)) keep := by
  obtain ⟨htake, hdrop⟩ := takeWhile_of_dropWhile_append isWord h
  rw [cutName, htake, hdrop]
  rfl

theorem cutIdentifier_shortened {first : Char}
    (h : (cutIdentifier mode first (cs ++ tail)).rest = keep ++ tail) :
    cutIdentifier mode first cs = leaving (cutIdentifier mode first (cs ++ tail)) keep := by
  obtain ⟨htake, hdrop⟩ := takeWhile_of_dropWhile_append isWord h
  rw [cutIdentifier, htake, hdrop]
  rfl

theorem cutHex_shortened {x : Char} (h : (cutHex mode x (cs ++ tail)).rest = keep ++ tail) :
    cutHex mode x cs = leaving (cutHex mode x (cs ++ tail)) keep := by
  obtain ⟨htake, hdrop⟩ := takeWhile_of_dropWhile_append isHexDigit h
  rw [cutHex, htake, hdrop]
  rfl

theorem cutNumber_shortened {sign : List Char}
    (h : (cutNumber mode sign (cs ++ tail)).rest = keep ++ tail) :
    cs.takeWhile Char.isDigit = (cs ++ tail).takeWhile Char.isDigit ∧
      cutNumber mode sign cs = leaving (cutNumber mode sign (cs ++ tail)) keep := by
  unfold cutNumber at h ⊢
  split at h
  · rename_i rest hpercent
    have hends : (cs ++ tail).dropWhile Char.isDigit = '%' :: keep ++ tail :=
      hpercent.trans (congrArg _ h)
    obtain ⟨htake, hdrop⟩ := takeWhile_of_dropWhile_append Char.isDigit hends
    refine ⟨htake, ?_⟩
    rw [htake, hdrop]
    rfl
  · rename_i hother
    obtain ⟨htake, hdrop⟩ := takeWhile_of_dropWhile_append Char.isDigit h
    refine ⟨htake, ?_⟩
    rw [htake, hdrop]
    split
    · rename_i rest
      exact (hother (rest ++ tail) h).elim
    · rfl

theorem hexAfterZero?_append_of_eq_some {x : Char} {digits : List Char}
    (h : hexAfterZero? cs = some (x, digits)) :
    hexAfterZero? (cs ++ tail) = some (x, digits ++ tail) := by
  unfold hexAfterZero? at h
  split at h
  · split_ifs at h with hhex
    obtain ⟨rfl, rfl⟩ := Prod.mk.inj (Option.some.inj h)
    exact if_pos hhex
  · cases h

theorem hexAfterZero?_shortened {x : Char} {digits : List Char}
    (h : hexAfterZero? (cs ++ tail) = some (x, digits))
    (hrest : (cutHex mode x digits).rest = keep ++ tail) :
    ∃ left, digits = left ++ tail ∧ hexAfterZero? cs = some (x, left) := by
  have hcons := hexAfterZero?_eq_some h
  obtain ⟨hx, hdigits⟩ := hexAfterZero?_digits h
  have hsplit := List.takeWhile_append_dropWhile (p := isHexDigit) (l := digits)
  have hdrop : digits.dropWhile isHexDigit = keep ++ tail := hrest
  rw [hdrop, ← List.append_assoc] at hsplit
  obtain ⟨d, ds, hds⟩ := List.exists_cons_of_ne_nil (takeWhile_ne_nil hdigits)
  have hd : isHexDigit d = true :=
    forall_takeWhile isHexDigit digits d (by rw [hds]; exact List.mem_cons_self)
  rw [hds] at hsplit
  refine ⟨d :: ds ++ keep, hsplit.symm, ?_⟩
  rw [← hsplit, ← List.cons_append] at hcons
  obtain rfl := List.append_cancel_right hcons
  exact if_pos ⟨hx, hd⟩

/-- A text that does not begin a hexadecimal literal begins none where it is cut off. -/
theorem hexAfterZero?_eq_none (h : hexAfterZero? (cs ++ tail) = none) :
    hexAfterZero? cs = none := by
  cases hcs : hexAfterZero? cs with
  | none => rfl
  | some found =>
    rw [hexAfterZero?_append_of_eq_some hcs] at h
    cases h

theorem cutString_shortened (h : cutString mode (cs ++ tail) = .ok result)
    (hrest : result.rest = keep ++ tail) : cutString mode cs = .ok (leaving result keep) := by
  unfold cutString at h ⊢
  split at h
  · cases h
  · rename_i quote rest hquote
    obtain rfl := Except.ok.inj h
    have hends : (cs ++ tail).dropWhile isStringBody = quote :: keep ++ tail :=
      hquote.trans (congrArg _ hrest)
    obtain ⟨htake, hdrop⟩ := takeWhile_of_dropWhile_append isStringBody hends
    rw [htake, hdrop]
    rfl

theorem cutResourceId_shortened (h : cutResourceId mode (cs ++ tail) = .ok result)
    (hrest : result.rest = keep ++ tail) : cutResourceId mode cs = .ok (leaving result keep) := by
  unfold cutResourceId at h
  split at h
  · rename_i rest hauto
    obtain rfl := Except.ok.inj h
    have hkeep : rest = keep ++ tail := hrest
    rw [hkeep] at hauto
    obtain rfl : cs = 'a' :: 'u' :: 't' :: 'o' :: keep := List.append_cancel_right hauto
    rfl
  · cases h
  · rename_i hauto _
    simp only [] at h
    split at h
    · cases h
    · rename_i hdigits
      obtain rfl := Except.ok.inj h
      -- What each part of the id leaves ends with the text that is cut off.
      have hdrop : (splitSign (splitNames 2 (cs ++ tail)).2).2.dropWhile Char.isDigit =
          keep ++ tail := hrest
      obtain ⟨left, hleft⟩ :
        ∃ left, (splitSign (splitNames 2 (cs ++ tail)).2).2 = left ++ tail := by
        rw [← List.takeWhile_append_dropWhile (p := Char.isDigit)
          (l := (splitSign (splitNames 2 (cs ++ tail)).2).2), hdrop, ← List.append_assoc]
        exact ⟨_, rfl⟩
      obtain ⟨number, hnumber⟩ : ∃ number, (splitNames 2 (cs ++ tail)).2 = number ++ tail := by
        rw [← splitSign_append (splitNames 2 (cs ++ tail)).2, hleft, ← List.append_assoc]
        exact ⟨_, rfl⟩
      have hnames := splitNames_shortened hnumber
      rw [hnumber] at hleft hdrop hdigits ⊢
      have hsign := splitSign_shortened hleft
      rw [hleft] at hdrop hdigits ⊢
      obtain ⟨htake, hkeep⟩ := takeWhile_of_dropWhile_append Char.isDigit hdrop
      unfold cutResourceId
      split
      · exact (hauto _ rfl).elim
      · obtain rfl : [] = number := congrArg Prod.snd hnames
        obtain rfl : [] = left := congrArg Prod.snd hsign
        rw [← htake] at hdigits
        exact absurd rfl hdigits
      · simp only [hnames, hsign, htake, hkeep]
        rw [if_neg hdigits]
        rfl

theorem cutDollar_shortened (h : cutDollar mode (cs ++ tail) = .ok result)
    (hrest : result.rest = keep ++ tail) : cutDollar mode cs = .ok (leaving result keep) := by
  unfold cutDollar at h
  split at h
  · cases h
  · cases h
  · rename_i c rest hcs
    split_ifs at h with hparen hword
    · obtain rfl := Except.ok.inj h
      have hkeep : rest = keep ++ tail := hrest
      rw [hkeep, ← List.cons_append] at hcs
      obtain rfl := List.append_cancel_right hcs
      rw [cutDollar, if_pos hparen]
      rfl
    · obtain rfl := Except.ok.inj h
      rw [← hcs] at hrest ⊢
      have hcut := cutName_shortened hrest
      have hany : cs.head?.any isWord = true := by
        refine head?_any_of_takeWhile_ne_nil ?_
        rw [(takeWhile_of_dropWhile_append isWord hrest).1, hcs]
        exact takeWhile_ne_nil hword
      cases cs with
      | nil => cases hany
      | cons d cs =>
        obtain rfl : d = c := (List.cons.inj hcs).1
        rw [cutDollar, if_neg hparen, if_pos hword, hcut]

theorem cutSymbol_shortened {c : Char} (h : cutSymbol mode c (cs ++ tail) = .ok result)
    (hrest : result.rest = keep ++ tail) : cutSymbol mode c cs = .ok (leaving result keep) := by
  unfold cutSymbol at h ⊢
  split at h
  · rename_i hleft
    obtain rfl := Except.ok.inj h
    obtain rfl := cons_of_drop_append hleft.2 hrest
    rw [if_pos ⟨hleft.1, rfl⟩]
    rfl
  rename_i hleft
  rw [if_neg fun hcs ↦ hleft ⟨hcs.1, head?_append_of_eq_some hcs.2⟩]
  split at h
  · rename_i hright
    obtain rfl := Except.ok.inj h
    obtain rfl := cons_of_drop_append hright.2 hrest
    rw [if_pos ⟨hright.1, rfl⟩]
    rfl
  rename_i hright
  rw [if_neg fun hcs ↦ hright ⟨hcs.1, head?_append_of_eq_some hcs.2⟩]
  -- The symbols of one character leave all that is behind them.
  split_ifs at h ⊢
  · obtain rfl := Except.ok.inj h
    obtain rfl := List.append_cancel_right hrest
    rfl
  · obtain rfl := Except.ok.inj h
    obtain rfl := List.append_cancel_right hrest
    rfl
  · split at h
    · obtain rfl := Except.ok.inj h
      obtain rfl := List.append_cancel_right hrest
      rfl
    · cases h

/-- What is cut off is cut off as well where the text ends behind it, or further on. -/
theorem cut_shortened {c : Char} (h : cut mode c (cs ++ tail) = .ok result)
    (hrest : result.rest = keep ++ tail) : cut mode c cs = .ok (leaving result keep) := by
  refine cut_of_byRule ?_
  cases byRule_of_cut h with
  | directive hc hcut =>
    obtain rfl := Except.ok.inj hcut
    exact .directive hc (congrArg _ (cutName_shortened hrest))
  | string hc hcut => exact .string hc (cutString_shortened hcut hrest)
  | resourceId hc hcut => exact .resourceId hc (cutResourceId_shortened hcut hrest)
  | dollar hc hcut => exact .dollar hc (cutDollar_shortened hcut hrest)
  | hexadecimal hc hhex hcut =>
    obtain rfl := Except.ok.inj hcut
    obtain ⟨left, rfl, hleft⟩ := hexAfterZero?_shortened hhex hrest
    exact .hexadecimal hc hleft (congrArg _ (cutHex_shortened hrest))
  | number hc hhex hcut =>
    obtain rfl := Except.ok.inj hcut
    exact .number hc (fun hzero ↦ hexAfterZero?_eq_none (hhex hzero))
      (congrArg _ (@cutNumber_shortened (c :: cs) keep tail mode [] hrest).2)
  | negative hc hdigit hcut =>
    obtain rfl := Except.ok.inj hcut
    obtain ⟨htake, hnumber⟩ := cutNumber_shortened hrest
    have hany : cs.head?.any Char.isDigit = true := by
      refine head?_any_of_takeWhile_ne_nil ?_
      rw [htake]
      exact takeWhile_ne_nil hdigit
    exact .negative hc hany (congrArg _ hnumber)
  | identifier hc hcut =>
    obtain rfl := Except.ok.inj hcut
    exact .identifier hc (congrArg _ (cutIdentifier_shortened hrest))
  | symbol hmark hdigit hstart hminus hcut =>
    exact .symbol hmark hdigit hstart (fun hcs ↦ hminus ⟨hcs.1, head?_any_append_of_any hcs.2⟩)
      (cutSymbol_shortened hcut hrest)

end ResourceLang.Proofs.ShortenedCut
