import ResourceLang.Proofs.ScannerRun

/-!
Lexemes written out with single spaces between them are read back. A step of the scanner passes over
the blank in front of a spelled lexeme and cuts exactly that lexeme, so a run gives them all, in
order, as long as each stands where its mode admits it.
-/

set_option autoImplicit false
set_option relaxedAutoImplicit false

namespace ResourceLang.Proofs.SpacedTokens

open Token Token.Scan LexemeGrammar SpelledLexemes ScannerRun

variable {source : Option SourceId}

/-- The lexemes written out with single spaces between them. -/
def spaced (lexemes : List Lexeme) : String :=
  " ".intercalate (lexemes.map fun lexeme ↦ String.ofList (spelling lexeme))

/-- What lexemes must be for a text to spell them: each one is in the grammar, and each one stands
where the mode that those before it leave admits it. -/
structure WellFormed (mode : Mode) (lexemes : List Lexeme) : Prop where
  lexical : ∀ lexeme ∈ lexemes, Lexical lexeme
  admitted : (afterAll? mode (lexemes.map Lexeme.kind)).isSome

theorem wellFormed_cons {mode : Mode} {lexeme : Lexeme} {lexemes : List Lexeme}
    (h : WellFormed mode (lexeme :: lexemes)) :
    Lexical lexeme ∧ ∃ next, after? mode lexeme.kind = some next ∧ WellFormed next lexemes := by
  obtain ⟨hlexeme, hlexemes⟩ := List.forall_mem_cons.mp h.lexical
  have hadmitted := h.admitted
  rw [List.map_cons, afterAll?, List.foldlM_cons] at hadmitted
  obtain ⟨last, hlast⟩ := Option.isSome_iff_exists.mp hadmitted
  obtain ⟨next, hnext, hrest⟩ := Option.bind_eq_some_iff.mp hlast
  exact ⟨hlexeme, next, hnext, hlexemes, Option.isSome_iff_exists.mpr ⟨last, hrest⟩⟩

/-- The lexemes written out with a space in front of each. -/
def following (lexemes : List Lexeme) : List Char :=
  lexemes.flatMap fun lexeme ↦ ' ' :: spelling lexeme

theorem following_cons (lexeme : Lexeme) (lexemes : List Lexeme) :
    following (lexeme :: lexemes) = [' '] ++ (spelling lexeme ++ following lexemes) := rfl

theorem stops_following (lexemes : List Lexeme) : Stops (following lexemes) := by
  intro c hc
  cases lexemes with
  | nil => cases hc
  | cons lexeme lexemes =>
    obtain rfl : ' ' = c := Option.some.inj hc
    rfl

theorem toList_spaced_cons (lexeme : Lexeme) (lexemes : List Lexeme) :
    (spaced (lexeme :: lexemes)).toList = spelling lexeme ++ following lexemes := by
  induction lexemes generalizing lexeme with
  | nil => simp [spaced, following]
  | cons next lexemes ih =>
    have hnext := ih next
    simp only [spaced, List.map_cons, String.intercalate_cons_cons, String.toList_append,
      String.toList_ofList] at hnext ⊢
    rw [hnext, following, following, List.flatMap_cons, List.append_assoc]
    rfl

/-- One step reads the lexeme that is spelled next. -/
theorem step_spelling {mode next : Mode} {gap : List Char} {lexeme : Lexeme} {lexemes : List Lexeme}
    (hgap : ∀ rest, Gap gap rest) (hlexeme : Lexical lexeme)
    (hnext : after? mode lexeme.kind = some next) (place : Place) :
    Scanner.step source ⟨place, mode, gap ++ (spelling lexeme ++ following lexemes)⟩ =
      .token ⟨lexeme, place.after gap, source⟩
        ⟨(place.after gap).after (spelling lexeme), next, following lexemes⟩ :=
  step_of_cuts (hgap _) (cuts_spelling hlexeme hnext (stops_following lexemes)) place

/-- A run reads lexemes that are spelled with a space in front of each. -/
theorem run_following {mode : Mode} {lexemes : List Lexeme} (h : WellFormed mode lexemes)
    (place : Place) (done : List Token) :
    ∃ tokens after, Scanner.run source done ⟨place, mode, following lexemes⟩ =
      (.ok (done.reverse ++ tokens), after) ∧ tokens.map Token.lexeme = lexemes := by
  induction lexemes generalizing mode place done with
  | nil =>
    refine ⟨[], ⟨place, mode, []⟩, ?_, rfl⟩
    rw [List.append_nil]
    exact run_of_finished (step_nil place mode) done
  | cons lexeme lexemes ih =>
    obtain ⟨hlexeme, next, hnext, hlexemes⟩ := wellFormed_cons h
    have hgap (rest : List Char) : Gap [' '] rest := .blank rfl (.nil rest)
    have hstep := @step_spelling source mode next [' '] lexeme lexemes hgap hlexeme hnext place
    obtain ⟨tokens, after, hrun, htokens⟩ := ih hlexemes
      ((place.after [' ']).after (spelling lexeme)) (⟨lexeme, place.after [' '], source⟩ :: done)
    refine ⟨⟨lexeme, place.after [' '], source⟩ :: tokens, after, ?_, congrArg _ htokens⟩
    rw [following_cons, run_of_token hstep, hrun, List.reverse_cons, List.append_assoc]
    rfl

/-- The spellings of well-formed lexemes with single spaces between them are read as those lexemes,
with their kinds, texts and components, and as nothing else. -/
theorem tokenize_spaced {lexemes : List Lexeme} (h : WellFormed .outside lexemes) :
    ∃ tokens, tokenize (spaced lexemes) = .ok tokens ∧ tokens.map Token.lexeme = lexemes := by
  rw [tokenize_eq, Scanner.ofText]
  cases lexemes with
  | nil =>
    refine ⟨[], ?_, rfl⟩
    rw [spaced, List.map_nil, String.intercalate_nil, String.toList_empty,
      run_of_finished (step_nil .start .outside)]
    rfl
  | cons lexeme lexemes =>
    obtain ⟨hlexeme, next, hnext, hlexemes⟩ := wellFormed_cons h
    have hstep := @step_spelling none .outside next [] lexeme lexemes .nil hlexeme hnext .start
    obtain ⟨tokens, after, hrun, htokens⟩ := run_following hlexemes
      ((Place.start.after []).after (spelling lexeme)) [⟨lexeme, Place.start.after [], none⟩]
    refine ⟨⟨lexeme, Place.start.after [], none⟩ :: tokens, ?_, congrArg _ htokens⟩
    rw [List.nil_append] at hstep
    rw [toList_spaced_cons, run_of_token hstep, hrun]
    rfl

/-- Lexemes that begin alike or stand next to each other without a blank elsewhere. -/
def entangled : List Lexeme :=
  [.plain .directive "", .plain .string "a\x60 b", .plain .minus "-", .plain .integer "-5",
    .plain .percentage "50", .plain .expressionOpen "$(", .plain .leftParen "(",
    .plain .integer "0xFf", .plain .rightParen ")", .plain .expressionClose ")",
    .plain .rightParen ")", .plain .variableName "0x", .plain .resourceId "auto",
    .dotted .resourceId ["9", "b_2", "-128"], .plain .leftAngle "<", .plain .leftShift "<<"]

theorem wellFormed_entangled : WellFormed .outside entangled := by
  have hhex : IsHexDigits ['F', 'f'] := ⟨List.cons_ne_nil _ _, List.all_eq_true.mp rfl⟩
  have hvariable : IsWord ['0', 'x'] := ⟨List.cons_ne_nil _ _, List.all_eq_true.mp rfl⟩
  have hfirst : IsWord ['9'] := ⟨List.cons_ne_nil _ _, List.all_eq_true.mp rfl⟩
  have hsecond : IsWord ['b', '_', '2'] := ⟨List.cons_ne_nil _ _, List.all_eq_true.mp rfl⟩
  have hfive : IsDigits ['5'] := ⟨List.cons_ne_nil _ _, List.all_eq_true.mp rfl⟩
  have hfifty : IsDigits ['5', '0'] := ⟨List.cons_ne_nil _ _, List.all_eq_true.mp rfl⟩
  have hlast : IsDigits ['1', '2', '8'] := ⟨List.cons_ne_nil _ _, List.all_eq_true.mp rfl⟩
  have hnames : ∀ name ∈ [['9'], ['b', '_', '2']], IsWord name := by
    simp only [List.forall_mem_cons]
    exact ⟨hfirst, hsecond, by simp⟩
  refine ⟨?_, rfl⟩
  simp only [entangled, List.forall_mem_cons]
  refine ⟨?_, ?_, ?_, ?_, ?_, ?_, ?_, ?_, ?_, ?_, ?_, ?_, ?_, ?_, ?_, ?_, ?_⟩
  · exact @Lexical.directive [] (by simp)
  · exact @Lexical.string "a\x60 b".toList (by decide)
  · exact .symbol rfl
  · exact @Lexical.integer ['-', '5'] (.inr ⟨['5'], rfl, hfive⟩)
  · exact @Lexical.percentage ['5', '0'] (.inl hfifty)
  · exact .symbol rfl
  · exact .symbol rfl
  · exact @Lexical.hexadecimal ['F', 'f'] hhex
  · exact .symbol rfl
  · exact .symbol rfl
  · exact .symbol rfl
  · exact @Lexical.variableName ['0', 'x'] hvariable
  · exact .auto
  · exact @Lexical.resourceId [['9'], ['b', '_', '2']] ['-', '1', '2', '8'] (by decide) hnames
      (.inr ⟨['1', '2', '8'], rfl, hlast⟩) (by decide)
  · exact .symbol rfl
  · exact .symbol rfl
  · simp

theorem tokenize_spaced_entangled :
    spaced entangled =
      "@ \"a\x60 b\" - -5 50% $( ( 0xFf ) ) ) $0x #auto #9.b_2.-128 < <<" ∧
    ∃ tokens, tokenize (spaced entangled) = .ok tokens ∧ tokens.map Token.lexeme = entangled :=
  ⟨by decide, tokenize_spaced wellFormed_entangled⟩

end ResourceLang.Proofs.SpacedTokens
