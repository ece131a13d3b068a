import Mathlib.Data.List.TakeWhile
import ResourceLang.Proofs.CutRules
import ResourceLang.Proofs.LexemeGrammar

/-!
Whatever is cut off the front of a text is a lexeme of the grammar, spelled by the characters taken,
where its mode admits it. No rule takes a character more or less than its lexeme is spelled with.
-/

set_option autoImplicit false
set_option relaxedAutoImplicit false

namespace ResourceLang.Proofs.CutSoundness

open Token Token.Scan LexemeGrammar CutRules

/-- What a token cut off in `mode` is: a lexeme of the grammar, spelled by the characters taken, of
a kind that the mode admits. -/
structure Sound (mode : Mode) (result : Cut) : Prop where
  lexical : Lexical result.lexeme
  spells : Spells result.lexeme result.taken
  steers : after? mode result.lexeme.kind = some result.mode

/-- A token spelled as its lexeme is, of a kind that leaves the mode as it is. -/
theorem sound_of_spelling (kind : Kind) (hmodal : kind ∉ modal) {mode : Mode} {result : Cut}
    (hkind : result.lexeme.kind = kind) (hmode : result.mode = mode)
    (hlexical : Lexical result.lexeme) (htaken : result.taken = spelling result.lexeme) :
    Sound mode result := by
  refine ⟨hlexical, .inl htaken, ?_⟩
  rw [hkind, after?_eq_self hmodal, hmode]

theorem forall_takeWhile (p : Char → Bool) (cs : List Char) : ∀ c ∈ cs.takeWhile p, p c = true :=
  fun _ ↦ List.mem_takeWhile_imp

/-- A run of a class has no character that the class leaves out. -/
theorem not_mem_of_class {p : Char → Bool} {c : Char} (hp : p c = false) {cs : List Char}
    (h : ∀ d ∈ cs, p d = true) : c ∉ cs := by
  intro hmem
  rw [h c hmem] at hp
  cases hp

theorem not_mem_of_isDecimal {c : Char} (hdigit : c.isDigit = false) (hminus : c ≠ '-')
    {number : List Char} (h : IsDecimal number) : c ∉ number := by
  rcases h with hdigits | ⟨digits, rfl, hdigits⟩
  · exact not_mem_of_class hdigit hdigits.2
  · exact List.not_mem_cons_of_ne_of_not_mem hminus (not_mem_of_class hdigit hdigits.2)

theorem takeWhile_ne_nil {p : Char → Bool} {cs : List Char} (h : cs.head?.any p = true) :
    cs.takeWhile p ≠ [] := by
  cases cs with
  | nil => cases h
  | cons c cs =>
    have hc : p c = true := h
    rw [List.takeWhile_cons_of_pos hc]
    exact List.cons_ne_nil _ _

theorem sound_cutDirective (mode : Mode) (cs : List Char) :
    Sound mode (cutName .directive mode '@' cs) := by
  have hlexical := Lexical.directive (forall_takeWhile isWord cs)
  exact sound_of_spelling .directive (by decide) rfl rfl hlexical (spelling_plain .directive _).symm

theorem sound_cutVariableName {c : Char} (hc : isWord c = true) (cs : List Char) :
    Sound .outside (cutName .variableName .outside '$' (c :: cs)) := by
  have hname : IsWord ((c :: cs).takeWhile isWord) :=
    ⟨takeWhile_ne_nil hc, forall_takeWhile isWord (c :: cs)⟩
  exact ⟨.variableName hname, .inl (spelling_plain .variableName _).symm, rfl⟩

theorem sound_cutIdentifier {c : Char} (hc : isWordStart c = true) (mode : Mode) (cs : List Char) :
    Sound mode (cutIdentifier mode c cs) := by
  have hlexical := Lexical.identifier hc (forall_takeWhile isWord cs)
  exact sound_of_spelling .identifier (by decide) rfl rfl hlexical
    (spelling_plain .identifier _).symm

theorem sound_cutHex {x : Char} (hx : x = 'x' ∨ x = 'X') {cs : List Char}
    (hcs : cs.head?.any isHexDigit = true) (mode : Mode) : Sound mode (cutHex mode x cs) := by
  have hdigits : IsHexDigits (cs.takeWhile isHexDigit) :=
    ⟨takeWhile_ne_nil hcs, forall_takeWhile isHexDigit cs⟩
  refine ⟨.hexadecimal hdigits, ?_, @after?_eq_self .integer (by decide) mode⟩
  rcases hx with rfl | rfl
  · exact .inl (spelling_plain .integer _).symm
  · exact .inr ⟨_, hdigits, rfl, rfl⟩

theorem hexAfterZero?_digits {x : Char} {cs digits : List Char}
    (h : hexAfterZero? cs = some (x, digits)) :
    (x = 'x' ∨ x = 'X') ∧ digits.head?.any isHexDigit = true := by
  unfold hexAfterZero? at h
  split at h
  · split_ifs at h with hhex
    obtain ⟨rfl, rfl⟩ := Prod.mk.inj (Option.some.inj h)
    exact hhex
  · cases h

theorem isDecimal_append {sign digits : List Char} (hsign : sign = [] ∨ sign = ['-'])
    (hdigits : IsDigits digits) : IsDecimal (sign ++ digits) := by
  rcases hsign with rfl | rfl
  · exact .inl hdigits
  · exact .inr ⟨digits, rfl, hdigits⟩

theorem sound_cutNumber {sign cs : List Char} (hsign : sign = [] ∨ sign = ['-'])
    (hcs : cs.head?.any Char.isDigit = true) (mode : Mode) :
    Sound mode (cutNumber mode sign cs) := by
  have hnumber : IsDecimal (sign ++ cs.takeWhile Char.isDigit) :=
    isDecimal_append hsign ⟨takeWhile_ne_nil hcs, forall_takeWhile Char.isDigit cs⟩
  unfold cutNumber
  split
  · exact sound_of_spelling .percentage (by decide) rfl rfl (.percentage hnumber)
      (spelling_plain .percentage _).symm
  · exact sound_of_spelling .integer (by decide) rfl rfl (.integer hnumber)
      (spelling_plain .integer _).symm

theorem sound_cutString {mode : Mode} {cs : List Char} {result : Cut}
    (h : cutString mode cs = .ok result) : Sound mode result := by
  unfold cutString at h
  split at h
  · cases h
  · rename_i quote rest hd
    obtain rfl := Except.ok.inj h
    have hbody : '"' ∉ cs.takeWhile isStringBody := by
      intro hmem
      have hquote := forall_takeWhile isStringBody cs '"' hmem
      cases hquote
    obtain rfl : quote = '"' := by
      have hhead := List.head?_dropWhile_not isStringBody cs
      simpa [hd, isStringBody] using hhead
    exact sound_of_spelling .string (by decide) rfl rfl (.string hbody)
      (spelling_plain .string _).symm

theorem splitNames_isWord (count : Nat) (cs : List Char) :
    (splitNames count cs).1.length ≤ count ∧ ∀ name ∈ (splitNames count cs).1, IsWord name := by
  induction count generalizing cs with
  | zero => simp [splitNames]
  | succ count ih =>
    unfold splitNames
    simp only []
    split
    · rename_i rest hd
      by_cases hname : cs.takeWhile isWord = []
      · rw [if_pos (by simpa using hname)]
        simp
      · rw [if_neg (by simpa using hname)]
        refine ⟨Nat.succ_le_succ (ih rest).1, ?_⟩
        rw [List.forall_mem_cons]
        exact ⟨⟨hname, forall_takeWhile isWord cs⟩, (ih rest).2⟩
    · simp

theorem splitSign_of_head?_ne {cs : List Char} (h : cs.head? ≠ some '-') :
    splitSign cs = ([], cs) := by
  unfold splitSign
  split
  · exact absurd rfl h
  · rfl

theorem splitSign_sign (cs : List Char) : (splitSign cs).1 = [] ∨ (splitSign cs).1 = ['-'] := by
  unfold splitSign
  split
  · exact .inr rfl
  · exact .inl rfl

/-- The text of a resource id begins with `auto` only if what it was cut off did. -/
theorem lexical_resourceId {names : List (List Char)} {number cs : List Char}
    (hcount : names.length ≤ 2) (hnames : ∀ name ∈ names, IsWord name) (hnumber : IsDecimal number)
    (hcs : names.flatMap (· ++ ['.']) ++ number <+: cs)
    (hnot : ∀ rest, cs ≠ 'a' :: 'u' :: 't' :: 'o' :: rest) :
    Lexical (.dotted .resourceId ((names ++ [number]).map String.ofList)) := by
  refine .resourceId hcount hnames hnumber ?_
  rw [toList_text_dotted]
  intro hauto
  obtain ⟨rest, rfl⟩ := hauto.trans hcs
  exact hnot rest rfl

theorem components_isPrefix (cs : List Char) :
    (splitNames 2 cs).1.flatMap (· ++ ['.']) ++ ((splitSign (splitNames 2 cs).2).1 ++
      (splitSign (splitNames 2 cs).2).2.takeWhile Char.isDigit) <+: cs := by
  refine ⟨(splitSign (splitNames 2 cs).2).2.dropWhile Char.isDigit, ?_⟩
  rw [List.append_assoc, List.append_assoc, List.takeWhile_append_dropWhile, splitSign_append,
    splitNames_append]

theorem sound_cutResourceId {mode : Mode} {cs : List Char} {result : Cut}
    (h : cutResourceId mode cs = .ok result) : Sound mode result := by
  unfold cutResourceId at h
  split at h
  · obtain rfl := Except.ok.inj h
    exact sound_of_spelling .resourceId (by decide) rfl rfl .auto
      (by simp [spelling, marked, Lexeme.plain])
  · cases h
  · rename_i hnot _
    obtain ⟨hcount, hnames⟩ := splitNames_isWord 2 cs
    have hsign := splitSign_sign (splitNames 2 cs).2
    simp only [] at h
    split at h
    · cases h
    · rename_i hdigits
      obtain rfl := Except.ok.inj h
      have hnumber := isDecimal_append hsign
        ⟨by simpa using hdigits, forall_takeWhile Char.isDigit (splitSign (splitNames 2 cs).2).2⟩
      refine sound_of_spelling .resourceId (by decide) rfl rfl
        (lexical_resourceId hcount hnames hnumber (components_isPrefix cs) hnot) ?_
      rw [spelling_resourceId]
      simp

theorem sound_symbol {mode next : Mode} {kind : Kind} {text : String} {taken : List Char}
    (htext : symbolText? kind = some text) (htaken : taken = text.toList)
    (hmode : after? mode kind = some next) (rest : List Char) :
    Sound mode ⟨.plain kind text, taken, rest, next⟩ := by
  refine ⟨.symbol htext, .inl ?_, hmode⟩
  rw [htaken, spelling_symbol htext]

theorem sound_cutDollar {mode : Mode} {cs : List Char} {result : Cut}
    (h : cutDollar mode cs = .ok result) : Sound mode result := by
  unfold cutDollar at h
  split at h
  · cases h
  · cases h
  · split at h
    · obtain rfl := Except.ok.inj h
      exact sound_symbol rfl rfl rfl _
    · split at h
      · rename_i hc
        obtain rfl := Except.ok.inj h
        exact sound_cutVariableName hc _
      · cases h

theorem symbolText?_of_symbolKind? {c : Char} {kind : Kind} (h : symbolKind? c = some kind) :
    symbolText? kind = some (String.singleton c) ∧ kind ∉ modal := by
  unfold symbolKind? at h
  split at h
  case h_21 => cases h
  all_goals
    obtain rfl := Option.some.inj h
    exact ⟨rfl, by decide⟩

theorem sound_cutSymbol {mode : Mode} {c : Char} {cs : List Char} {result : Cut}
    (h : cutSymbol mode c cs = .ok result) : Sound mode result := by
  unfold cutSymbol at h
  split at h
  · obtain rfl := Except.ok.inj h
    exact sound_symbol rfl rfl (after?_eq_self (by decide) mode) _
  split at h
  · obtain rfl := Except.ok.inj h
    exact sound_symbol rfl rfl (after?_eq_self (by decide) mode) _
  split at h
  · rename_i hc
    obtain rfl := Except.ok.inj h
    subst hc
    refine sound_symbol rfl (String.toList_singleton _).symm ?_ cs
    cases mode <;> rfl
  split at h
  · rename_i hc
    obtain rfl := Except.ok.inj h
    subst hc
    rcases mode with _ | _ | depth <;>
      exact sound_symbol rfl (String.toList_singleton _).symm rfl cs
  split at h
  · rename_i kind hkind
    obtain rfl := Except.ok.inj h
    obtain ⟨htext, hmodal⟩ := symbolText?_of_symbolKind? hkind
    exact sound_symbol htext (String.toList_singleton _).symm (after?_eq_self hmodal mode) cs
  · cases h

/-- Whatever is cut off is a token of the grammar. -/
theorem sound_cut {mode : Mode} {c : Char} {cs : List Char} {result : Cut}
    (h : cut mode c cs = .ok result) : Sound mode result := by
  cases byRule_of_cut h with
  | directive _ hcut =>
    obtain rfl := Except.ok.inj hcut
    exact sound_cutDirective mode cs
  | string _ hcut => exact sound_cutString hcut
  | resourceId _ hcut => exact sound_cutResourceId hcut
  | dollar _ hcut => exact sound_cutDollar hcut
  | hexadecimal _ hhex hcut =>
    obtain rfl := Except.ok.inj hcut
    obtain ⟨hx, hdigits⟩ := hexAfterZero?_digits hhex
    exact sound_cutHex hx hdigits mode
  | number hdigit _ hcut =>
    obtain rfl := Except.ok.inj hcut
    exact @sound_cutNumber [] (c :: cs) (.inl rfl) hdigit mode
  | negative _ hdigit hcut =>
    obtain rfl := Except.ok.inj hcut
    exact sound_cutNumber (.inr rfl) hdigit mode
  | identifier hstart hcut =>
    obtain rfl := Except.ok.inj hcut
    exact sound_cutIdentifier hstart mode cs
  | symbol _ _ _ _ hcut => exact sound_cutSymbol hcut

end ResourceLang.Proofs.CutSoundness
