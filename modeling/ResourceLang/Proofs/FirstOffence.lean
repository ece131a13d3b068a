import Mathlib.Tactic.SplitIfs
import ResourceLang.Proofs.JoinedLines
import ResourceLang.Proofs.ScannerPath
import ResourceLang.Proofs.ShortenedCut

/-!
The character at which a text is refused, and why. The text in front of it is cut into tokens by
itself, and what stands there and behind it says which error it is: each cause has its own condition
on the text, and no two causes have theirs met at once.
-/

set_option autoImplicit false
set_option relaxedAutoImplicit false

namespace ResourceLang.Proofs.FirstOffence

open Text Token Token.Scan LexemeGrammar CutRules SpelledLexemes CutSoundness ScannerRun PlaceShift
  JoinedLines
open ScannerPath ShortenedCut

/-! ### Causes -/

/-- A character that begins no token, no comment and no white space. -/
def StartsNothing (c : Char) : Prop :=
  isBlank c = false ∧ c ≠ '\x60' ∧ ∀ lexeme, Lexical lexeme → (spelling lexeme).head? ≠ some c

/-- A digit comes next, with or without a minus sign in front. -/
def StartsNumber (cs : List Char) : Prop :=
  ∃ d rest, d.isDigit = true ∧ (cs = d :: rest ∨ cs = '-' :: d :: rest)

/-- When the character `c` is refused for a cause, outside of expressions or inside one, given what
is behind it. -/
def Explains (outside : Prop) (c : Char) (cs : List Char) : Cause → Prop
  | .unterminatedString => c = '"' ∧ '"' ∉ cs
  | .endOfText => cs = [] ∧ (c = '#' ∨ c = '$' ∧ outside)
  | .malformedResourceId =>
    c = '#' ∧ cs ≠ [] ∧ ¬ "auto".toList <+: cs ∧ ∃ names left, Names 2 cs names left ∧
      ¬ StartsNumber left
  | .unrecognised found =>
    c = found ∧ (c = '$' ∧ ¬ outside ∨
      c = '$' ∧ outside ∧ (∃ d rest, cs = d :: rest ∧ d ≠ '(' ∧ isWord d = false) ∨ StartsNothing c)

section Cut

variable {mode : Mode} {c : Char} {cs : List Char} {halt : Halt}

theorem explains_cutString (h : cutString mode cs = .error halt) (outside : Prop) :
    Explains outside '"' cs halt.cause := by
  unfold cutString at h
  split at h
  · rename_i hnone
    obtain rfl := Except.error.inj h
    refine ⟨rfl, fun hquote ↦ ?_⟩
    have hbody := List.dropWhile_eq_nil_iff.mp hnone '"' hquote
    cases hbody
  · cases h

theorem not_startsNumber_of_takeWhile (h : (splitSign cs).2.takeWhile Char.isDigit = []) :
    ¬ StartsNumber cs := by
  rintro ⟨d, rest, hd, hcs⟩
  have hsign : (splitSign cs).2 = d :: rest := by
    rcases hcs with rfl | rfl
    · unfold splitSign
      split
      · rename_i hminus
        obtain rfl : d = '-' := (List.cons.inj hminus).1
        exact absurd hd (by decide)
      · rfl
    · rfl
  rw [hsign, List.takeWhile_cons_of_pos hd] at h
  exact List.cons_ne_nil _ _ h

theorem explains_cutResourceId (h : cutResourceId mode cs = .error halt) (outside : Prop) :
    Explains outside '#' cs halt.cause := by
  unfold cutResourceId at h
  split at h
  · cases h
  · obtain rfl := Except.error.inj h
    exact ⟨rfl, .inl rfl⟩
  · rename_i hauto hne
    simp only [] at h
    split at h
    · rename_i hdigits
      obtain rfl := Except.error.inj h
      refine ⟨rfl, hne, ?_, _, _, names_splitNames 2 cs,
        not_startsNumber_of_takeWhile (List.isEmpty_iff.mp hdigits)⟩
      rintro ⟨rest, rfl⟩
      exact hauto rest rfl
    · cases h

theorem explains_cutDollar (h : cutDollar mode cs = .error halt) :
    Explains (mode = .outside) '$' cs halt.cause := by
  unfold cutDollar at h
  split at h
  · obtain rfl := Except.error.inj h
    exact ⟨rfl, .inl ⟨rfl, by simp⟩⟩
  · obtain rfl := Except.error.inj h
    exact ⟨rfl, .inr ⟨rfl, rfl⟩⟩
  · rename_i d rest
    split_ifs at h with hparen hword
    obtain rfl := Except.error.inj h
    exact ⟨rfl, .inr (.inl ⟨rfl, rfl, d, rest, rfl, hparen, by simpa using hword⟩)⟩

theorem cutSymbol_eq_error (h : cutSymbol mode c cs = .error halt) :
    halt.cause = .unrecognised c ∧ c ≠ '(' ∧ c ≠ ')' ∧ symbolKind? c = none := by
  unfold cutSymbol at h
  split_ifs at h with _ _ hopen hclose
  split at h
  · cases h
  · rename_i hkind
    obtain rfl := Except.error.inj h
    exact ⟨rfl, hopen, hclose, hkind⟩

theorem cutSymbol_of_symbolKind? (hopen : c ≠ '(') (hclose : c ≠ ')') (hkind : symbolKind? c = none)
    (mode : Mode) (cs : List Char) :
    cutSymbol mode c cs = .error ⟨.unrecognised c, [], c :: cs⟩ := by
  have hleft : c ≠ '<' := by
    rintro rfl
    cases hkind
  have hright : c ≠ '>' := by
    rintro rfl
    cases hkind
  rw [cutSymbol, if_neg fun hboth ↦ hleft hboth.1, if_neg fun hboth ↦ hright hboth.1, if_neg hopen,
    if_neg hclose, hkind]

/-- A lexeme may stand in one mode or another. -/
theorem exists_after? (kind : Kind) : ∃ mode next, after? mode kind = some next := by
  cases kind
  case expressionClose => exact ⟨.inside 0, .outside, rfl⟩
  all_goals exact ⟨.outside, _, rfl⟩

/-- A character that is refused wherever it stands begins no lexeme. -/
theorem head?_spelling_ne (h : ∀ mode cs, ∃ halt, cut mode c cs = .error halt) {lexeme : Lexeme}
    (hlexical : Lexical lexeme) : (spelling lexeme).head? ≠ some c := by
  intro hhead
  obtain ⟨mode, next, hmode⟩ := exists_after? lexeme.kind
  obtain ⟨first, cs, hspelling, hcut⟩ :=
    @cuts_spelling mode next lexeme hlexical hmode [] (by simp [Stops])
  rw [List.append_nil] at hspelling
  rw [hspelling] at hhead
  obtain rfl : first = c := Option.some.inj hhead
  obtain ⟨halt, herror⟩ := h mode cs
  rw [hcut] at herror
  cases herror

/-- A cause that an attempt gives is one that the text explains. -/
theorem explains_of_cut (hblank : isBlank c = false) (hcomment : c ≠ '\x60')
    (h : cut mode c cs = .error halt) :
    Explains (mode = .outside) c cs halt.cause := by
  cases byRule_of_cut h with
  | string hc hcut =>
    subst hc
    exact explains_cutString hcut _
  | resourceId hc hcut =>
    subst hc
    exact explains_cutResourceId hcut _
  | dollar hc hcut =>
    subst hc
    exact explains_cutDollar hcut
  | symbol hmark hdigit hstart _ hcut =>
    -- The character is left to the symbols in every mode and before every text, and they refuse it.
    obtain ⟨hcause, hopen, hclose, hkind⟩ := cutSymbol_eq_error hcut
    have hminus : c ≠ '-' := by
      rintro rfl
      cases hkind
    have hrefused (mode : Mode) (cs : List Char) : ∃ halt, cut mode c cs = .error halt :=
      ⟨_, cut_of_byRule (.symbol hmark hdigit hstart (fun hcs ↦ hminus hcs.1)
        (cutSymbol_of_symbolKind? hopen hclose hkind mode cs))⟩
    rw [hcause]
    exact ⟨rfl, .inr (.inr ⟨hblank, hcomment, fun lexeme ↦ head?_spelling_ne hrefused⟩)⟩
  -- No other rule fails.
  | directive _ hcut => cases hcut
  | hexadecimal _ _ hcut => cases hcut
  | number _ _ hcut => cases hcut
  | negative _ _ hcut => cases hcut
  | identifier _ hcut => cases hcut

/-- The one cause that the character can be refused for, if it is refused. -/
def due (outside : Prop) [Decidable outside] (c : Char) (cs : List Char) : Cause :=
  if c = '"' then .unterminatedString
  else if c = '#' then if cs = [] then .endOfText else .malformedResourceId
  else if c = '$' ∧ cs = [] ∧ outside then .endOfText
  else .unrecognised c

theorem StartsNothing.ne (h : StartsNothing c) : c ≠ '"' ∧ c ≠ '#' ∧ c ≠ '$' := by
  obtain ⟨-, -, hnone⟩ := h
  refine ⟨?_, ?_, ?_⟩
  · rintro rfl
    exact hnone _ (@Lexical.string [] (by simp)) rfl
  · rintro rfl
    exact hnone _ .auto rfl
  · rintro rfl
    exact hnone _ (@Lexical.symbol .expressionOpen "$(" rfl) rfl

theorem eq_due_of_explains {outside : Prop} [Decidable outside] {cause : Cause}
    (h : Explains outside c cs cause) : cause = due outside c cs := by
  cases cause with
  | unterminatedString =>
    obtain ⟨rfl, -⟩ := h
    rfl
  | endOfText =>
    obtain ⟨rfl, rfl | ⟨rfl, hout⟩⟩ := h
    · rfl
    · exact (if_pos ⟨rfl, rfl, hout⟩).symm
  | malformedResourceId =>
    obtain ⟨rfl, hne, -⟩ := h
    exact (if_neg hne).symm
  | unrecognised found =>
    obtain ⟨rfl, ⟨rfl, hin⟩ | ⟨rfl, -, d, rest, rfl, -⟩ | hnothing⟩ := h
    · rw [due, if_neg (by decide), if_neg (by decide), if_neg fun hend ↦ hin hend.2.2]
    · rw [due, if_neg (by decide), if_neg (by decide),
        if_neg fun hend ↦ List.cons_ne_nil _ _ hend.2.1]
    · obtain ⟨hstring, hid, hdollar⟩ := hnothing.ne
      rw [due, if_neg hstring, if_neg hid, if_neg fun hend ↦ hdollar hend.1]

/-- No two causes are explained by one text. -/
theorem explains_iff {outside : Prop} {cause : Cause} (h : Explains outside c cs cause)
    (other : Cause) :
    cause = other ↔ Explains outside c cs other := by
  classical
  constructor
  · rintro rfl
    exact h
  · intro hother
    rw [eq_due_of_explains h, eq_due_of_explains hother]

end Cut

/-! ### The text in front -/

variable {source : Option SourceId} {scanner last after : Scanner}

/-- A gap ends where the text does as well as at what it ended at. -/
theorem gap_of_head? {gap rest short : List Char} (h : Gap gap rest)
    (hhead : ∀ c ∈ short.head?, c ∈ rest.head?) : Gap gap short := by
  induction h with
  | nil rest => exact .nil short
  | blank hc _ ih => exact .blank hc (ih hhead)
  | @comment body gap rest hbody hend _ ih =>
    refine .comment hbody ?_ (ih hhead)
    cases gap with
    | cons c cs => exact hend
    | nil => exact fun c hc ↦ hend c (hhead c hc)

/-- The tokens of a path are those of one over the text that ends where it ends, or further on. -/
theorem path_shortened {tokens : List Token} (h : Path source scanner tokens last)
    {front tail : List Char} (hlast : last.rest = front ++ tail) :
    ∃ before, scanner.rest = before ++ tail ∧
      Path source ⟨scanner.place, scanner.mode, before⟩ tokens ⟨last.place, last.mode, front⟩ := by
  induction h with
  | stay scanner => exact ⟨front, hlast, .stay _⟩
  | @step scanner next last token tokens hstep _ ih =>
    obtain ⟨middle, hmiddle, hpath⟩ := ih hlast
    have houtcome := outcome_step source scanner
    rw [hstep] at houtcome
    cases houtcome with
    | @token gap cs c result hrest hgap hcut =>
      have hsource := source_cut scanner.mode c cs
      have htaken := advances_cut scanner.mode c cs
      rw [hcut] at hsource htaken
      obtain ⟨first, taken, hcons⟩ := List.exists_cons_of_ne_nil htaken
      have hsplit : result.taken ++ result.rest = c :: cs := hsource
      have hleft : result.rest = middle ++ tail := hmiddle
      rw [hcons, hleft, List.cons_append, ← List.append_assoc] at hsplit
      obtain ⟨rfl, rfl⟩ := List.cons.inj hsplit
      have hcuts : Cuts scanner.mode (first :: (taken ++ middle)) (leaving result middle) :=
        ⟨first, taken ++ middle, rfl, cut_shortened hcut hleft⟩
      have hbefore : Gap gap (first :: (taken ++ middle)) := gap_of_head? hgap fun _ hc ↦ hc
      refine ⟨gap ++ first :: (taken ++ middle), ?_,
        .step (step_of_cuts hbefore hcuts scanner.place) hpath⟩
      rw [hrest, ← List.cons_append, ← List.append_assoc]

/-- What the scanner meets that fails: a gap is passed over, and no token can be cut off behind
it. -/
structure Refuses (scanner : Scanner) (error : LexError) (gap : List Char) (c : Char)
    (cs : List Char) : Prop where
  rest_eq : scanner.rest = gap ++ c :: cs
  isGap : Gap gap (c :: cs)
  error_eq : ∃ cause, error = Scanner.errorAt (scanner.place.after gap) cause ∧
    Explains (scanner.mode = .outside) c cs cause

theorem skipGap_stops {inComment : Bool} {place : Place} {cs rest : List Char} {c : Char}
    (h : (skipGap inComment place cs).2 = c :: rest) : isBlank c = false ∧ c ≠ '\x60' := by
  induction cs generalizing inComment place with
  | nil => cases h
  | cons d cs ih =>
    unfold skipGap at h
    split_ifs at h with hcomment hblank hmark
    · exact ih h
    · exact ih h
    · exact ih h
    · obtain rfl : d = c := (List.cons.inj h).1
      exact ⟨by simpa using hblank, hmark⟩

theorem refuses_of_step {error : LexError} (h : scanner.step source = .failed error after) :
    ∃ gap c cs, Refuses scanner error gap c cs := by
  obtain ⟨gap, rest, hrest, hskip, hgap⟩ := skipGap_spec false scanner.place scanner.rest
  unfold Scanner.step at h
  simp only [hskip] at h
  cases rest with
  | nil => cases h
  | cons c cs =>
    obtain ⟨hblank, hcomment⟩ := skipGap_stops (congrArg Prod.snd hskip)
    dsimp only at h
    split at h
    · cases h
    · rename_i halt hcut
      injection h with herror
      exact ⟨gap, c, cs, hrest, hgap, halt.cause, herror.symm, explains_of_cut hblank hcomment hcut⟩

/-! ### Texts -/

/-- As many expressions are closed as are opened. -/
def Outside (tokens : List Token) : Prop :=
  (tokens.map Token.kind).count .expressionOpen = (tokens.map Token.kind).count .expressionClose

/-- The position of the character that is refused. The end of a text is reported one byte behind
it. -/
def offence : LexError → Nat
  | .unexpectedEnd position => position - 1
  | error => error.position

def causeOf : LexError → Cause
  | .unrecognisedCharacter found _ => .unrecognised found
  | .unexpectedEnd _ => .endOfText
  | .malformedResourceId _ => .malformedResourceId
  | .unterminatedString _ => .unterminatedString

theorem offence_errorAt (place : Place) (cause : Cause) :
    offence (Scanner.errorAt place cause) = place.position := by
  cases cause <;> rfl

theorem causeOf_errorAt (place : Place) (cause : Cause) :
    causeOf (Scanner.errorAt place cause) = cause := by
  cases cause <;> rfl

theorem outside_iff_of_path {tokens : List Token} (h : Path source scanner tokens last)
    (hmode : scanner.mode = .outside) : Outside tokens ↔ last.mode = .outside := by
  have hcount := openings_afterAll? (afterAll?_of_path h)
  rw [hmode] at hcount
  have hstart : openings .outside = 0 := rfl
  constructor
  · intro hsame
    exact eq_outside_of_openings (by rw [Outside] at hsame; omega)
  · intro hlast
    rw [hlast] at hcount
    exact Nat.add_left_cancel hcount

/-- The tokens on the way to some point of a text are those of the text in front of that point,
where no token reaches over it. -/
theorem tokenize_front {text : String} {tokens : List Token}
    (h : Path none (.ofText text) tokens last) {gap tail : List Char}
    (hrest : last.rest = gap ++ tail) (hgap : Gap gap tail) :
    ∃ before, text.toList = before ++ tail ∧ last.place.after gap = Place.start.after before ∧
      tokenize (String.ofList before) = .ok tokens := by
  obtain ⟨before, hbefore, hshort⟩ := path_shortened h hrest
  refine ⟨before, hbefore, ?_, ?_⟩
  · obtain ⟨-, passed, hpassed, hplace⟩ := (standsIn_ofText text).path h
    rw [hrest, ← List.append_assoc] at hpassed
    have hsame : before = passed ++ gap := List.append_cancel_right (hbefore.symm.trans hpassed)
    rw [hsame, Place.after_append, hplace]
  · have hfront : Scanner.ofText (String.ofList before) =
        ⟨(Scanner.ofText text).place, (Scanner.ofText text).mode, before⟩ := by
      rw [Scanner.ofText, String.toList_ofList]
      rfl
    have hstop : Gap gap [] := gap_of_head? hgap (by simp)
    have hend := @step_of_gap none gap [] hstop last.place last.mode
    rw [List.append_nil] at hend
    rw [← hfront] at hshort
    exact tokenize_of_path hshort hend

/-- Wherever a text is refused, all that is in front of the refused character is cut into tokens,
also where the text ends there. The cause of the error is the one that the character and what is
behind it explain. -/
theorem refused_of_tokenize {text : String} {error : LexError} (h : tokenize text = .error error) :
    ∃ before c cs tokens, text.toList = before ++ c :: cs ∧
      offence error = (Utf8.encode before).length ∧
      tokenize (String.ofList before) = .ok tokens ∧
      ∀ cause, causeOf error = cause ↔ Explains (Outside tokens) c cs cause := by
  obtain ⟨tokens, last, after, hpath, hstep⟩ := path_of_tokenize_error h
  obtain ⟨gap, c, cs, hrest, hgap, cause, rfl, hexplains⟩ := refuses_of_step hstep
  obtain ⟨before, htext, hplace, htokens⟩ := tokenize_front hpath hrest hgap
  refine ⟨before, c, cs, tokens, htext, ?_, htokens, ?_⟩
  · rw [offence_errorAt, hplace, position_after]
    exact Nat.zero_add _
  · rw [outside_iff_of_path hpath rfl, causeOf_errorAt]
    exact explains_iff hexplains

/-- A text that ends at a dollar sign inside an expression. -/
def dangling : String := "\"é\" $(<<$"

theorem refused_of_tokenize_dangling :
    tokenize dangling = .error (.unrecognisedCharacter '$' ⟨9, 1, 9⟩) ∧
      ∃ before c cs tokens, dangling.toList = before ++ c :: cs ∧ 9 = (Utf8.encode before).length ∧
        tokenize (String.ofList before) = .ok tokens ∧
        ∀ cause, .unrecognised '$' = cause ↔ Explains (Outside tokens) c cs cause := by
  have h : tokenize dangling = .error (.unrecognisedCharacter '$' ⟨9, 1, 9⟩) := by decide +kernel
  exact ⟨h, refused_of_tokenize h⟩

end ResourceLang.Proofs.FirstOffence
