import Mathlib.Data.List.TakeWhile
import ResourceLang.Proofs.CutRules
import ResourceLang.Proofs.LexemeGrammar

/-!
A lexeme of the grammar is cut off the front of a text that spells it, if its mode admits it and a
blank or nothing follows. Each rule is followed on the characters of its own lexemes; what comes
next cannot make the run of any of them longer.
-/

set_option autoImplicit false
set_option relaxedAutoImplicit false

namespace ResourceLang.Proofs.SpelledLexemes

open Token Token.Scan LexemeGrammar CutRules

/-! ### The rule that a first character chooses -/

theorem cut_directive (mode : Mode) (cs : List Char) :
    cut mode '@' cs = .ok (cutName .directive mode '@' cs) := rfl

theorem cut_string (mode : Mode) (cs : List Char) : cut mode '"' cs = cutString mode cs := rfl

theorem cut_resourceId (mode : Mode) (cs : List Char) : cut mode '#' cs = cutResourceId mode cs :=
  rfl

theorem cut_dollar (mode : Mode) (cs : List Char) : cut mode '$' cs = cutDollar mode cs := rfl

theorem cut_hexadecimal {x d : Char} (hx : x = 'x' ∨ x = 'X') (hd : isHexDigit d = true)
    (mode : Mode) (cs : List Char) :
    cut mode '0' (x :: d :: cs) = .ok (cutHex mode x (d :: cs)) := by
  have hhex : hexAfterZero? (x :: d :: cs) = some (x, d :: cs) := by
    rw [hexAfterZero?, if_pos ⟨hx, hd⟩]
  exact cut_of_byRule (.hexadecimal rfl hhex rfl)

theorem cut_digit {c : Char} {cs : List Char} (h : c.isDigit = true)
    (hx : ∀ x ∈ cs.head?, x ≠ 'x' ∧ x ≠ 'X') (mode : Mode) :
    cut mode c cs = .ok (cutNumber mode [] (c :: cs)) := by
  refine cut_of_byRule (.number h (fun _ ↦ ?_) rfl)
  unfold hexAfterZero?
  split
  · rw [if_neg]
    rintro ⟨rfl | rfl, -⟩
    · exact (hx 'x' rfl).1 rfl
    · exact (hx 'X' rfl).2 rfl
  · rfl

theorem cut_negative {cs : List Char} (h : cs.head?.any Char.isDigit = true) (mode : Mode) :
    cut mode '-' cs = .ok (cutNumber mode ['-'] cs) :=
  cut_of_byRule (.negative rfl h rfl)

theorem cut_minus {cs : List Char} (h : cs.head?.any Char.isDigit = false) (mode : Mode) :
    cut mode '-' cs = cutSymbol mode '-' cs :=
  cut_of_byRule (.symbol (by decide) rfl rfl (by simp [h]) rfl)

theorem cut_wordStart {c : Char} (h : isWordStart c = true) (mode : Mode) (cs : List Char) :
    cut mode c cs = .ok (cutIdentifier mode c cs) :=
  cut_of_byRule (.identifier h rfl)

theorem eq_of_isBlank {c : Char} (h : isBlank c = true) :
    c = ' ' ∨ c = '\t' ∨ c = '\n' ∨ c = '\r' := by
  simpa only [isBlank, Bool.or_eq_true, decide_eq_true_eq, or_assoc] using h

/-- Nothing is cut off where a gap goes on. -/
theorem not_gap_of_cut {mode : Mode} {c : Char} {cs : List Char} {result : Cut}
    (h : cut mode c cs = .ok result) : isBlank c = false ∧ c ≠ '\x60' := by
  have hblank : isBlank c ≠ true := by
    intro hblank
    rcases eq_of_isBlank hblank with rfl | rfl | rfl | rfl <;> cases h
  refine ⟨by simpa using hblank, ?_⟩
  rintro rfl
  cases h

/-! ### Spelled lexemes are cut off -/

/-- A blank or nothing comes next. -/
def Stops (rest : List Char) : Prop := ∀ c ∈ rest.head?, isBlank c = true

theorem stops_nil : Stops [] := by simp [Stops]

theorem takeWhile_append_of_stop {p : Char → Bool} {run rest : List Char}
    (hrun : ∀ c ∈ run, p c = true) (hrest : ∀ c ∈ rest.head?, p c = false) :
    (run ++ rest).takeWhile p = run ∧ (run ++ rest).dropWhile p = rest := by
  rw [List.takeWhile_append_of_pos hrun, List.dropWhile_append_of_pos hrun]
  cases rest with
  | nil => simp
  | cons c cs =>
    have hc := hrest c rfl
    simp [hc]

/-- A class without blanks ends where a text stops. -/
theorem stops_class {p : Char → Bool} (hp : [' ', '\t', '\n', '\r'].any p = false)
    {rest : List Char} (h : Stops rest) : ∀ c ∈ rest.head?, p c = false := by
  intro c hc
  refine Bool.eq_false_iff.mpr (List.any_eq_false.mp hp c ?_)
  rcases eq_of_isBlank (h c hc) with rfl | rfl | rfl | rfl <;> simp

theorem cutName_append {name rest : List Char} (hname : ∀ c ∈ name, isWord c = true)
    (hrest : Stops rest) (kind : Kind) (mode : Mode) (mark : Char) :
    cutName kind mode mark (name ++ rest) =
      ⟨.plain kind (String.ofList name), mark :: name, rest, mode⟩ := by
  obtain ⟨htake, hdrop⟩ := takeWhile_append_of_stop hname (stops_class rfl hrest)
  rw [cutName, htake, hdrop]

theorem cutIdentifier_append {name rest : List Char} (hname : ∀ c ∈ name, isWord c = true)
    (hrest : Stops rest) (mode : Mode) (first : Char) :
    cutIdentifier mode first (name ++ rest) =
      ⟨.plain .identifier (String.ofList (first :: name)), first :: name, rest, mode⟩ := by
  obtain ⟨htake, hdrop⟩ := takeWhile_append_of_stop hname (stops_class rfl hrest)
  rw [cutIdentifier, htake, hdrop]

theorem cutHex_append {digits rest : List Char} (hdigits : ∀ c ∈ digits, isHexDigit c = true)
    (hrest : Stops rest) (mode : Mode) (x : Char) :
    cutHex mode x (digits ++ rest) =
      ⟨.plain .integer (String.ofList ('0' :: 'x' :: digits)), '0' :: x :: digits, rest, mode⟩ := by
  obtain ⟨htake, hdrop⟩ := takeWhile_append_of_stop hdigits (stops_class rfl hrest)
  rw [cutHex, htake, hdrop]

theorem cutNumber_append {digits rest : List Char} (hdigits : ∀ c ∈ digits, c.isDigit = true)
    (hrest : Stops rest) (mode : Mode) (sign : List Char) :
    cutNumber mode sign (digits ++ rest) =
      ⟨.plain .integer (String.ofList (sign ++ digits)), sign ++ digits, rest, mode⟩ := by
  obtain ⟨htake, hdrop⟩ := takeWhile_append_of_stop hdigits (stops_class rfl hrest)
  have hpercent : ∀ c ∈ rest.head?, c ≠ '%' := by
    rintro c hc rfl
    exact absurd (hrest '%' hc) (by decide)
  unfold cutNumber
  rw [htake, hdrop]
  split
  · exact absurd rfl (hpercent '%' rfl)
  · rfl

theorem cutNumber_percent {digits : List Char} (hdigits : ∀ c ∈ digits, c.isDigit = true)
    (rest : List Char) (mode : Mode) (sign : List Char) :
    cutNumber mode sign (digits ++ '%' :: rest) =
      ⟨.plain .percentage (String.ofList (sign ++ digits)), sign ++ digits ++ ['%'], rest,
        mode⟩ := by
  have hpercent : ∀ c ∈ ('%' :: rest).head?, c.isDigit = false := by
    rintro c hc
    obtain rfl : '%' = c := by simpa using hc
    rfl
  obtain ⟨htake, hdrop⟩ := takeWhile_append_of_stop hdigits hpercent
  rw [cutNumber, htake, hdrop]
  rfl

theorem cutString_append {body : List Char} (hbody : '"' ∉ body) (rest : List Char) (mode : Mode) :
    cutString mode (body ++ '"' :: rest) =
      .ok ⟨.plain .string (String.ofList body), '"' :: body ++ ['"'], rest, mode⟩ := by
  have hrun : ∀ c ∈ body, isStringBody c = true := by
    intro c hc
    rw [isStringBody, decide_eq_true_eq]
    rintro rfl
    exact hbody hc
  have hquote : ∀ c ∈ ('"' :: rest).head?, isStringBody c = false := by
    rintro c hc
    obtain rfl : '"' = c := by simpa using hc
    rfl
  obtain ⟨htake, hdrop⟩ := takeWhile_append_of_stop hrun hquote
  unfold cutString
  rw [htake, hdrop]

theorem splitNames_of_not_dotted {cs : List Char}
    (h : ∀ rest, cs.dropWhile isWord ≠ '.' :: rest) (count : Nat) :
    splitNames count cs = ([], cs) := by
  cases count with
  | zero => rfl
  | succ count =>
    rw [splitNames]
    split
    · rename_i rest hdot
      exact absurd hdot (h rest)
    · rfl

theorem splitNames_names {names : List (List Char)} {tail : List Char}
    (hnames : ∀ name ∈ names, IsWord name) (htail : ∀ rest, tail.dropWhile isWord ≠ '.' :: rest)
    {count : Nat} (hcount : names.length ≤ count) :
    splitNames count (names.flatMap (· ++ ['.']) ++ tail) = (names, tail) := by
  induction names generalizing count with
  | nil => exact splitNames_of_not_dotted htail count
  | cons name names ih =>
    obtain ⟨hname, hnames⟩ := List.forall_mem_cons.mp hnames
    cases count with
    | zero => simp at hcount
    | succ count =>
      have hdot : ∀ c ∈ ('.' :: (names.flatMap (· ++ ['.']) ++ tail)).head?, isWord c = false := by
        rintro c hc
        obtain rfl : '.' = c := by simpa using hc
        rfl
      obtain ⟨htake, hdrop⟩ := takeWhile_append_of_stop hname.2 hdot
      have hsplit := ih hnames (Nat.le_of_succ_le_succ hcount)
      rw [List.flatMap_cons, List.append_assoc, List.append_assoc, List.singleton_append,
        splitNames, htake, hdrop]
      simp only [hsplit, List.isEmpty_iff, hname.1, ↓reduceIte]

theorem not_dotted_of_isDecimal {number rest : List Char} (hnumber : IsDecimal number)
    (hrest : Stops rest) (tail : List Char) : (number ++ rest).dropWhile isWord ≠ '.' :: tail := by
  intro h
  rcases hnumber with hdigits | ⟨digits, rfl, -⟩
  · have hword : ∀ c ∈ number, isWord c = true := by
      intro c hc
      rw [isWord, Char.isAlphanum, hdigits.2 c hc, Bool.or_true, Bool.true_or]
    rw [(takeWhile_append_of_stop hword (stops_class rfl hrest)).2] at h
    rw [h] at hrest
    exact absurd (hrest '.' rfl) (by decide)
  · rw [List.cons_append, List.dropWhile_cons_of_neg (by decide)] at h
    simp at h

theorem exists_sign_of_isDecimal {number : List Char} (h : IsDecimal number) (rest : List Char) :
    ∃ sign digits, number = sign ++ digits ∧ IsDigits digits ∧
      splitSign (number ++ rest) = (sign, digits ++ rest) := by
  rcases h with hdigits | ⟨digits, rfl, hdigits⟩
  · refine ⟨[], number, rfl, hdigits, ?_⟩
    unfold splitSign
    split
    · rename_i cs hminus
      obtain ⟨d, ds, rfl⟩ := List.exists_cons_of_ne_nil hdigits.1
      obtain rfl : d = '-' := (List.cons.inj hminus).1
      exact absurd (hdigits.2 '-' List.mem_cons_self) (by decide)
    · rfl
  · exact ⟨['-'], digits, rfl, hdigits, rfl⟩

/-- A prefix that lacks a character of `cs` does not reach beyond `cs`. -/
theorem isPrefix_of_mem {text cs rest : List Char} {c : Char} (hc : c ∈ cs) (htext : c ∉ text)
    (h : text <+: cs ++ rest) : text <+: cs :=
  (List.prefix_or_prefix_of_prefix h (List.prefix_append cs rest)).resolve_right
    fun hcs ↦ htext (hcs.mem hc)

theorem not_auto_append {cs rest : List Char} (hdigit : ∃ c ∈ cs, c.isDigit = true)
    (hauto : ¬ "auto".toList <+: cs) : ¬ "auto".toList <+: cs ++ rest := by
  obtain ⟨c, hc, hdigit⟩ := hdigit
  have hno : "auto".toList.any Char.isDigit = false := rfl
  have hmem : c ∉ "auto".toList := fun hmem ↦ List.any_eq_false.mp hno c hmem hdigit
  exact fun h ↦ hauto (isPrefix_of_mem hc hmem h)

theorem cutResourceId_append {names : List (List Char)} {number rest : List Char}
    (hcount : names.length ≤ 2) (hnames : ∀ name ∈ names, IsWord name) (hnumber : IsDecimal number)
    (hauto : ¬ "auto".toList <+: names.flatMap (· ++ ['.']) ++ number) (hrest : Stops rest)
    (mode : Mode) :
    cutResourceId mode (names.flatMap (· ++ ['.']) ++ number ++ rest) =
      .ok ⟨.dotted .resourceId ((names ++ [number]).map String.ofList),
        '#' :: (names.flatMap (· ++ ['.']) ++ number), rest, mode⟩ := by
  have hsplit := splitNames_names hnames (not_dotted_of_isDecimal hnumber hrest) hcount
  obtain ⟨sign, digits, rfl, hdigits, hsign⟩ := exists_sign_of_isDecimal hnumber rest
  obtain ⟨htake, hdrop⟩ :=
    takeWhile_append_of_stop hdigits.2 (stops_class rfl hrest)
  obtain ⟨digit, hdigit⟩ := List.exists_mem_of_ne_nil digits hdigits.1
  have hnot : ¬ "auto".toList <+: names.flatMap (· ++ ['.']) ++ (sign ++ digits) ++ rest :=
    not_auto_append ⟨digit, by simp [hdigit], hdigits.2 digit hdigit⟩ hauto
  unfold cutResourceId
  split
  · rename_i hcs
    rw [hcs] at hnot
    exact absurd ⟨_, rfl⟩ hnot
  · rename_i hcs
    simp [hdigits.1] at hcs
  · rw [List.append_assoc, hsplit]
    simp only [hsign, htake, hdrop]
    rw [if_neg (by simp [hdigits.1])]
    simp

/-- The token at the front of the characters. -/
def Cuts (mode : Mode) (cs : List Char) (result : Cut) : Prop :=
  ∃ c tail, cs = c :: tail ∧ cut mode c tail = .ok result

theorem head?_ne_of_stops {rest : List Char} (hrest : Stops rest) {c : Char}
    (hc : isBlank c = false) : rest.head? ≠ some c := by
  intro h
  rw [hrest c h] at hc
  cases hc

theorem cuts_symbol {mode next : Mode} {kind : Kind} {text : String}
    (htext : symbolText? kind = some text) (hmode : after? mode kind = some next)
    {rest : List Char} (hrest : Stops rest) :
    Cuts mode (text.toList ++ rest) ⟨.plain kind text, text.toList, rest, next⟩ := by
  cases kind
  case integer | percentage | string | resourceId | identifier | directive | variableName =>
    cases htext
  all_goals obtain rfl := Option.some.inj htext
  case leftParen | expressionOpen => cases mode <;> cases hmode <;> exact ⟨_, _, rfl, rfl⟩
  case rightParen | expressionClose =>
    rcases mode with _ | _ | depth <;> cases hmode <;> exact ⟨')', rest, rfl, rfl⟩
  all_goals
    rw [after?_eq_self (by decide)] at hmode
    obtain rfl := Option.some.inj hmode
  case minus =>
    have hdigit := stops_class (p := Char.isDigit) rfl hrest
    have hany : rest.head?.any Char.isDigit = false := by
      cases rest with
      | nil => rfl
      | cons c cs => exact hdigit c rfl
    exact ⟨'-', rest, rfl, cut_minus hany mode⟩
  case leftAngle =>
    have hcut : cut mode '<' rest = cutSymbol mode '<' rest := rfl
    refine ⟨'<', rest, rfl, hcut.trans ?_⟩
    rw [cutSymbol, if_neg fun h ↦ head?_ne_of_stops hrest rfl h.2]
    rfl
  case rightAngle =>
    have hcut : cut mode '>' rest = cutSymbol mode '>' rest := rfl
    refine ⟨'>', rest, rfl, hcut.trans ?_⟩
    rw [cutSymbol, if_neg (by simp), if_neg fun h ↦ head?_ne_of_stops hrest rfl h.2]
    rfl
  all_goals exact ⟨_, _, rfl, rfl⟩

/-- A number begins with its sign and digits whatever follows, as long as that is not the `x` of a
hexadecimal literal. -/
theorem cut_decimal {number tail : List Char} (hnumber : IsDecimal number)
    (htail : ∀ c ∈ tail.head?, c ≠ 'x' ∧ c ≠ 'X') (mode : Mode) :
    ∃ sign digits c cs, number = sign ++ digits ∧ (∀ d ∈ digits, d.isDigit = true) ∧
      number ++ tail = c :: cs ∧ cut mode c cs = .ok (cutNumber mode sign (digits ++ tail)) := by
  rcases hnumber with ⟨hne, hdigits⟩ | ⟨digits, rfl, hne, hdigits⟩
  · obtain ⟨d, ds, rfl⟩ := List.exists_cons_of_ne_nil hne
    obtain ⟨hd, hds⟩ := List.forall_mem_cons.mp hdigits
    have hx : ∀ x ∈ (ds ++ tail).head?, x ≠ 'x' ∧ x ≠ 'X' := by
      cases ds with
      | nil => exact htail
      | cons e es =>
        intro x hx
        obtain rfl : e = x := Option.some.inj hx
        have he := hds e List.mem_cons_self
        constructor <;> rintro rfl <;> cases he
    exact ⟨[], d :: ds, d, ds ++ tail, rfl, hdigits, rfl, cut_digit hd hx mode⟩
  · obtain ⟨d, ds, rfl⟩ := List.exists_cons_of_ne_nil hne
    have hd := hdigits d List.mem_cons_self
    exact ⟨['-'], d :: ds, '-', d :: (ds ++ tail), rfl, hdigits, rfl,
      @cut_negative (d :: (ds ++ tail)) hd mode⟩

theorem cuts_integer {number rest : List Char} (hnumber : IsDecimal number) (hrest : Stops rest)
    (mode : Mode) :
    Cuts mode (number ++ rest) ⟨.plain .integer (String.ofList number), number, rest, mode⟩ := by
  have hx : ∀ c ∈ rest.head?, c ≠ 'x' ∧ c ≠ 'X' := by
    intro c hc
    rcases eq_of_isBlank (hrest c hc) with rfl | rfl | rfl | rfl <;> decide
  obtain ⟨sign, digits, c, cs, rfl, hdigits, hcons, hcut⟩ := cut_decimal hnumber hx mode
  exact ⟨c, cs, hcons, hcut.trans (congrArg _ (cutNumber_append hdigits hrest mode sign))⟩

theorem cuts_percentage {number : List Char} (hnumber : IsDecimal number) (rest : List Char)
    (mode : Mode) :
    Cuts mode (number ++ ['%'] ++ rest)
      ⟨.plain .percentage (String.ofList number), number ++ ['%'], rest, mode⟩ := by
  have hx : ∀ c ∈ ('%' :: rest).head?, c ≠ 'x' ∧ c ≠ 'X' := by
    intro c hc
    obtain rfl : '%' = c := Option.some.inj hc
    decide
  obtain ⟨sign, digits, c, cs, rfl, hdigits, hcons, hcut⟩ := cut_decimal hnumber hx mode
  rw [List.append_assoc]
  exact ⟨c, cs, hcons, hcut.trans (congrArg _ (cutNumber_percent hdigits rest mode sign))⟩

theorem cuts_directive {name rest : List Char} (hname : ∀ c ∈ name, isWord c = true)
    (hrest : Stops rest) (mode : Mode) :
    Cuts mode ('@' :: name ++ rest)
      ⟨.plain .directive (String.ofList name), '@' :: name, rest, mode⟩ := by
  refine ⟨'@', name ++ rest, rfl, ?_⟩
  rw [cut_directive, cutName_append hname hrest]

theorem cuts_variableName {name rest : List Char} (hname : IsWord name) (hrest : Stops rest) :
    Cuts .outside ('$' :: name ++ rest)
      ⟨.plain .variableName (String.ofList name), '$' :: name, rest, .outside⟩ := by
  have hcut := cutName_append hname.2 hrest .variableName .outside '$'
  obtain ⟨c, cs, rfl⟩ := List.exists_cons_of_ne_nil hname.1
  have hc := hname.2 c List.mem_cons_self
  have hparen : c ≠ '(' := by
    rintro rfl
    cases hc
  refine ⟨'$', c :: cs ++ rest, rfl, ?_⟩
  rw [List.cons_append] at hcut ⊢
  rw [cut_dollar, cutDollar, if_neg hparen, if_pos hc, hcut]

theorem cuts_identifier {first : Char} {name rest : List Char} (hfirst : isWordStart first = true)
    (hname : ∀ c ∈ name, isWord c = true) (hrest : Stops rest) (mode : Mode) :
    Cuts mode (first :: name ++ rest)
      ⟨.plain .identifier (String.ofList (first :: name)), first :: name, rest, mode⟩ := by
  refine ⟨first, name ++ rest, rfl, ?_⟩
  rw [cut_wordStart hfirst, cutIdentifier_append hname hrest]

theorem cuts_hexadecimal {digits rest : List Char} (hdigits : IsHexDigits digits)
    (hrest : Stops rest) (mode : Mode) :
    Cuts mode ('0' :: 'x' :: digits ++ rest)
      ⟨.plain .integer (String.ofList ('0' :: 'x' :: digits)), '0' :: 'x' :: digits, rest,
        mode⟩ := by
  have hcut := cutHex_append hdigits.2 hrest mode 'x'
  obtain ⟨d, ds, rfl⟩ := List.exists_cons_of_ne_nil hdigits.1
  refine ⟨'0', 'x' :: d :: ds ++ rest, rfl, ?_⟩
  rw [← hcut]
  exact cut_hexadecimal (.inl rfl) (hdigits.2 d List.mem_cons_self) mode (ds ++ rest)

theorem cuts_string {body : List Char} (hbody : '"' ∉ body) (rest : List Char) (mode : Mode) :
    Cuts mode ('"' :: body ++ ['"'] ++ rest)
      ⟨.plain .string (String.ofList body), '"' :: body ++ ['"'], rest, mode⟩ := by
  refine ⟨'"', body ++ '"' :: rest, by simp, ?_⟩
  rw [cut_string, cutString_append hbody]

/-- A spelled lexeme is cut off whole if its mode admits it and a blank or nothing follows. -/
theorem cuts_spelling {mode next : Mode} {lexeme : Lexeme} (h : Lexical lexeme)
    (hmode : after? mode lexeme.kind = some next) {rest : List Char} (hrest : Stops rest) :
    Cuts mode (spelling lexeme ++ rest) ⟨lexeme, spelling lexeme, rest, next⟩ := by
  have hkeep (kind : Kind) (hkind : kind ∉ modal) (hafter : after? mode kind = some next) :
      mode = next := by
    rw [after?_eq_self hkind] at hafter
    exact Option.some.inj hafter
  cases h with
  | directive hname =>
    obtain rfl := hkeep .directive (by decide) hmode
    rw [spelling_plain]
    exact cuts_directive hname hrest mode
  | variableName hname =>
    cases mode with
    | inside depth => cases hmode
    | outside =>
      obtain rfl := Option.some.inj hmode
      rw [spelling_plain]
      exact cuts_variableName hname hrest
  | identifier hfirst hname =>
    obtain rfl := hkeep .identifier (by decide) hmode
    rw [spelling_plain]
    exact cuts_identifier hfirst hname hrest mode
  | integer hnumber =>
    obtain rfl := hkeep .integer (by decide) hmode
    rw [spelling_plain]
    exact cuts_integer hnumber hrest mode
  | hexadecimal hdigits =>
    obtain rfl := hkeep .integer (by decide) hmode
    rw [spelling_plain]
    exact cuts_hexadecimal hdigits hrest mode
  | percentage hnumber =>
    obtain rfl := hkeep .percentage (by decide) hmode
    rw [spelling_plain]
    exact cuts_percentage hnumber rest mode
  | string hbody =>
    obtain rfl := hkeep .string (by decide) hmode
    rw [spelling_plain]
    exact cuts_string hbody rest mode
  | auto =>
    obtain rfl := hkeep .resourceId (by decide) hmode
    exact ⟨'#', 'a' :: 'u' :: 't' :: 'o' :: rest, rfl, rfl⟩
  | @resourceId names number hcount hnames hnumber hauto =>
    obtain rfl := hkeep .resourceId (by decide) hmode
    rw [toList_text_dotted] at hauto
    rw [spelling_resourceId]
    exact ⟨'#', _, rfl, (cut_resourceId _ _).trans
      (cutResourceId_append hcount hnames hnumber hauto hrest mode)⟩
  | @symbol kind text htext =>
    rw [spelling_symbol htext]
    exact cuts_symbol htext hmode hrest

end ResourceLang.Proofs.SpelledLexemes
