import ResourceLang.Proofs.CutSoundness
import ResourceLang.Proofs.SpelledLexemes
import ResourceLang.Token.Lexer

/-!
What one step of a scanner does to the text in front of it, in both directions: a gap and a token of
the grammar are passed over, and nothing else is. A run is a step and the run from where the step
leaves off.
-/

set_option autoImplicit false
set_option relaxedAutoImplicit false

namespace ResourceLang.Proofs.ScannerRun

open Token Token.Scan LexemeGrammar SpelledLexemes CutSoundness

variable {source : Option SourceId} {scanner after : Scanner}

/-! ### Gaps -/

/-- Characters that stand for no token, given what follows them: blanks and comments. A comment goes
on to the end of its line or of the text. -/
inductive Gap : (gap rest : List Char) → Prop
  | nil (rest : List Char) : Gap [] rest
  | blank {c : Char} {gap rest : List Char} (hc : isBlank c = true) (hgap : Gap gap rest) :
    Gap (c :: gap) rest
  | comment {body gap rest : List Char} (hbody : '\n' ∉ body)
      (hend : ∀ c ∈ (gap ++ rest).head?, c = '\n') (hgap : Gap gap rest) :
    Gap ('\x60' :: body ++ gap) rest

/-- A comment that goes on takes in one more character of its line. -/
theorem gap_comment_cons {c : Char} (hc : c ≠ '\n') {gap rest : List Char}
    (h : Gap ('\x60' :: gap) rest) : Gap ('\x60' :: c :: gap) rest := by
  cases h with
  | blank hblank _ => cases hblank
  | @comment body tail _ hbody hend htail =>
    refine @Gap.comment (c :: body) tail rest ?_ hend htail
    simp [hc.symm, hbody]

/-- What is passed over is a gap, or the rest of a comment where the text begins inside one. -/
theorem skipGap_spec (inComment : Bool) (place : Place) (cs : List Char) :
    ∃ gap rest, cs = gap ++ rest ∧ skipGap inComment place cs = (place.after gap, rest) ∧
      Gap (if inComment then '\x60' :: gap else gap) rest := by
  induction cs generalizing inComment place with
  | nil =>
    refine ⟨[], [], rfl, rfl, ?_⟩
    split
    · exact @Gap.comment [] [] [] (by simp) (by simp) (.nil [])
    · exact .nil []
  | cons c cs ih =>
    cases inComment with
    | true =>
      by_cases hc : c = '\n'
      · obtain ⟨gap, rest, rfl, hskip, hgap⟩ := ih false (place.next c)
        refine ⟨c :: gap, rest, rfl, ?_, ?_⟩
        · rw [skipGap, if_pos rfl, decide_eq_false (by simpa using hc), hskip]
          rfl
        · subst hc
          exact @Gap.comment [] ('\n' :: gap) rest (by simp) (by simp) (.blank rfl hgap)
      · obtain ⟨gap, rest, rfl, hskip, hgap⟩ := ih true (place.next c)
        refine ⟨c :: gap, rest, rfl, ?_, gap_comment_cons hc hgap⟩
        rw [skipGap, if_pos rfl, decide_eq_true hc, hskip]
        rfl
    | false =>
      by_cases hblank : isBlank c = true
      · obtain ⟨gap, rest, rfl, hskip, hgap⟩ := ih false (place.next c)
        refine ⟨c :: gap, rest, rfl, ?_, .blank hblank hgap⟩
        rw [skipGap, if_neg (by simp), if_pos hblank, hskip]
        rfl
      by_cases hcomment : c = '\x60'
      · obtain ⟨gap, rest, rfl, hskip, hgap⟩ := ih true (place.next c)
        refine ⟨c :: gap, rest, rfl, ?_, by subst hcomment; exact hgap⟩
        rw [skipGap, if_neg (by simp), if_neg hblank, if_pos hcomment, hskip]
        rfl
      · refine ⟨[], c :: cs, rfl, ?_, .nil _⟩
        rw [skipGap, if_neg (by simp), if_neg hblank, if_neg hcomment]
        rfl

theorem skipGap_line {body : List Char} (hbody : '\n' ∉ body) (place : Place) {rest : List Char}
    (hend : ∀ c ∈ rest.head?, c = '\n') :
    skipGap true place (body ++ rest) = skipGap false (place.after body) rest := by
  induction body generalizing place with
  | nil =>
    cases rest with
    | nil => rfl
    | cons c cs =>
      obtain rfl := hend c rfl
      rfl
  | cons c body ih =>
    have hc : c ≠ '\n' := (List.ne_of_not_mem_cons hbody).symm
    rw [List.cons_append, skipGap, if_pos rfl, decide_eq_true hc,
      ih (List.not_mem_of_not_mem_cons hbody)]
    rfl

/-- A gap is passed over whole. -/
theorem skipGap_append {gap rest : List Char} (h : Gap gap rest) (place : Place) :
    skipGap false place (gap ++ rest) = skipGap false (place.after gap) rest := by
  induction h generalizing place with
  | nil => rfl
  | blank hc _ ih =>
    rw [List.cons_append, skipGap, if_neg (by simp), if_pos hc, ih]
    rfl
  | @comment body gap rest hbody hend _ ih =>
    have hstart : skipGap false place ('\x60' :: (body ++ (gap ++ rest))) =
        skipGap true (place.next '\x60') (body ++ (gap ++ rest)) := rfl
    rw [List.append_assoc, List.cons_append, hstart, skipGap_line hbody _ hend, ih,
      Place.after_append]
    rfl

/-! ### Steps -/

/-- A token is read after a gap wherever it can be cut off. -/
theorem step_of_cuts {mode : Mode} {gap cs : List Char} {result : Cut} (hgap : Gap gap cs)
    (h : Cuts mode cs result) (place : Place) :
    Scanner.step source ⟨place, mode, gap ++ cs⟩ =
      .token ⟨result.lexeme, place.after gap, source⟩
        ⟨(place.after gap).after result.taken, result.mode, result.rest⟩ := by
  obtain ⟨c, tail, rfl, hcut⟩ := h
  obtain ⟨hblank, hcomment⟩ := not_gap_of_cut hcut
  have hskip : skipGap false place (gap ++ c :: tail) = (place.after gap, c :: tail) := by
    rw [skipGap_append hgap, skipGap, if_neg (by simp), if_neg (by simp [hblank]), if_neg hcomment]
  unfold Scanner.step
  simp only [hskip, hcut]

/-- A step from the front of a gap is one from its end. -/
theorem step_of_gap {gap rest : List Char} (h : Gap gap rest) (place : Place) (mode : Mode) :
    Scanner.step source ⟨place, mode, gap ++ rest⟩ =
      Scanner.step source ⟨place.after gap, mode, rest⟩ := by
  unfold Scanner.step
  simp only [skipGap_append h]

/-- All that a step can come to. A gap is passed over first; then the text is at its end, or a token
is cut off its front, or none can be. -/
inductive Outcome (source : Option SourceId) (scanner : Scanner) : Scanner.Step → Prop
  | finished (hgap : Gap scanner.rest []) :
    Outcome source scanner (.finished ⟨scanner.place.after scanner.rest, scanner.mode, []⟩)
  | token {gap cs : List Char} {c : Char} {result : Cut} (hrest : scanner.rest = gap ++ c :: cs)
      (hgap : Gap gap (c :: cs)) (hcut : cut scanner.mode c cs = .ok result) :
    Outcome source scanner (.token ⟨result.lexeme, scanner.place.after gap, source⟩
      ⟨(scanner.place.after gap).after result.taken, result.mode, result.rest⟩)
  | failed {gap cs : List Char} {c : Char} {halt : Halt} (hrest : scanner.rest = gap ++ c :: cs)
      (hgap : Gap gap (c :: cs)) (hcut : cut scanner.mode c cs = .error halt) :
    Outcome source scanner (.failed (Scanner.errorAt (scanner.place.after gap) halt.cause)
      ⟨(scanner.place.after gap).after halt.taken, scanner.mode, halt.rest⟩)

theorem outcome_step (source : Option SourceId) (scanner : Scanner) :
    Outcome source scanner (scanner.step source) := by
  obtain ⟨gap, rest, hrest, hskip, hgap⟩ := skipGap_spec false scanner.place scanner.rest
  unfold Scanner.step
  simp only [hskip]
  cases rest with
  | nil =>
    rw [List.append_nil] at hrest
    subst hrest
    exact .finished hgap
  | cons c cs =>
    dsimp only
    split
    · rename_i result hcut
      exact .token hrest hgap hcut
    · rename_i halt hcut
      exact .failed hrest hgap hcut

/-- What lies between a scanner and the one after a step that gives a token. -/
structure Passes (scanner : Scanner) (token : Token) (after : Scanner) (gap taken : List Char) :
    Prop where
  rest_eq : scanner.rest = gap ++ (taken ++ after.rest)
  isGap : Gap gap (taken ++ after.rest)
  place_eq : token.place = scanner.place.after gap
  taken_ne : taken ≠ []
  after_eq : after.place = token.place.after taken
  sound : Sound scanner.mode ⟨token.lexeme, taken, after.rest, after.mode⟩

theorem passes_of_step {token : Token} (h : scanner.step source = .token token after) :
    ∃ gap taken, Passes scanner token after gap taken := by
  have houtcome := outcome_step source scanner
  rw [h] at houtcome
  cases houtcome with
  | @token gap cs c result hrest hgap hcut =>
    have hsource := source_cut scanner.mode c cs
    have htaken := advances_cut scanner.mode c cs
    rw [hcut] at hsource htaken
    have hsplit : c :: cs = result.taken ++ result.rest := hsource.symm
    rw [hsplit] at hrest hgap
    exact ⟨gap, result.taken, hrest, hgap, rfl, htaken, rfl, sound_cut hcut⟩

theorem gap_of_finished (h : scanner.step source = .finished after) : Gap scanner.rest [] := by
  have houtcome := outcome_step source scanner
  rw [h] at houtcome
  cases houtcome with
  | finished hgap => exact hgap

theorem step_nil (place : Place) (mode : Mode) :
    Scanner.step source ⟨place, mode, []⟩ = .finished ⟨place, mode, []⟩ := rfl

/-! ### Runs -/

theorem run_eq (done : List Token) (scanner : Scanner) :
    scanner.run source done =
      match scanner.step source with
      | .finished after => (.ok done.reverse, after)
      | .failed error after => (.error error, after)
      | .token token after => after.run source (token :: done) := by
  rw [Scanner.run]
  split <;> rename_i hstep <;> rw [hstep]

theorem run_of_token {token : Token} (h : scanner.step source = .token token after)
    (done : List Token) : scanner.run source done = after.run source (token :: done) := by
  rw [run_eq, h]

theorem run_of_finished (h : scanner.step source = .finished after) (done : List Token) :
    scanner.run source done = (.ok done.reverse, after) := by
  rw [run_eq, h]

theorem run_of_failed {error : LexError} (h : scanner.step source = .failed error after)
    (done : List Token) : scanner.run source done = (.error error, after) := by
  rw [run_eq, h]

/-- A run hangs on its scanner through the first step only. -/
theorem run_congr {other : Scanner} (h : scanner.step source = other.step source)
    (done : List Token) : scanner.run source done = other.run source done := by
  rw [run_eq, run_eq, h]

/-- Tokens that a run starts with come out in front of those that it reads. -/
theorem run_append (done before : List Token) (scanner : Scanner) :
    scanner.run source (done ++ before) =
      ((scanner.run source done).1.map (before.reverse ++ ·), (scanner.run source done).2) := by
  induction done, scanner using Scanner.run.induct source with
  | case1 done scanner after hstep =>
    rw [run_of_finished hstep, run_of_finished hstep, List.reverse_append]
    rfl
  | case2 done scanner error after hstep =>
    rw [run_of_failed hstep, run_of_failed hstep]
    rfl
  | case3 done scanner token after hstep ih =>
    rw [run_of_token hstep, run_of_token hstep]
    exact ih

/-- Where a run without an error comes to: the end of the text, in the mode that its tokens lead
to. -/
theorem run_ok {tokens done : List Token} (h : scanner.run source done = (.ok tokens, after)) :
    ∃ later, tokens = done.reverse ++ later ∧
      afterAll? scanner.mode (later.map Token.kind) = some after.mode ∧
      after.place = scanner.place.after scanner.rest ∧ after.rest = [] := by
  induction done, scanner using Scanner.run.induct source with
  | case1 done scanner last hstep =>
    have houtcome := outcome_step source scanner
    rw [hstep] at houtcome
    rw [run_of_finished hstep] at h
    cases h
    cases houtcome with
    | finished hgap => exact ⟨[], (List.append_nil _).symm, rfl, rfl, rfl⟩
  | case2 done scanner error last hstep =>
    rw [run_of_failed hstep] at h
    cases h
  | case3 done scanner token next hstep ih =>
    rw [run_of_token hstep] at h
    obtain ⟨gap, taken, hpasses⟩ := passes_of_step hstep
    obtain ⟨later, htokens, hmode, hplace, hrest⟩ := ih h
    refine ⟨token :: later, ?_, ?_, ?_, hrest⟩
    · rw [htokens, List.reverse_cons, List.append_assoc]
      rfl
    · have hsteers : after? scanner.mode token.kind = some next.mode := hpasses.sound.steers
      rw [List.map_cons, afterAll?, List.foldlM_cons, hsteers]
      exact hmode
    · rw [hplace, hpasses.after_eq, hpasses.place_eq, hpasses.rest_eq, Place.after_append,
        Place.after_append]

/-- The tokens of a text are those of a run from its start. -/
theorem tokenize_eq (text : String) : tokenize text = ((Scanner.ofText text).run none []).1 := by
  unfold tokenize Lexer.resume Lexer.ofText
  simp only []
  split <;> rename_i hrun <;> rw [hrun]

end ResourceLang.Proofs.ScannerRun
