import ResourceLang.Proofs.ScannerRun

/-!
The way of a scanner through a text, token by token. A run that reads all follows a path to a step
that meets the end of the text, and a run that fails follows one to a step that fails. Wherever a
scanner has come to, what it has passed over and what lies in front of it make up the text, and its
place is the one behind what it has passed over.
-/

set_option autoImplicit false
set_option relaxedAutoImplicit false

namespace ResourceLang.Proofs.ScannerPath

open Token Token.Scan LexemeGrammar ScannerRun

variable {source : Option SourceId} {scanner last after : Scanner}

/-! ### Paths -/

/-- The tokens that the steps from one scanner to another give. -/
inductive Path (source : Option SourceId) : Scanner → List Token → Scanner → Prop
  | stay (scanner : Scanner) : Path source scanner [] scanner
  | step {scanner next last : Scanner} {token : Token} {tokens : List Token}
      (hstep : scanner.step source = .token token next) (hrest : Path source next tokens last) :
    Path source scanner (token :: tokens) last

theorem run_of_path {tokens : List Token} (h : Path source scanner tokens last)
    (done : List Token) :
    scanner.run source done = last.run source (tokens.reverse ++ done) := by
  induction h generalizing done with
  | stay scanner => rfl
  | step hstep _ ih =>
    rw [run_of_token hstep, ih, List.reverse_cons, List.append_assoc]
    rfl

theorem path_of_run_ok {tokens done : List Token}
    (h : scanner.run source done = (.ok tokens, after)) :
    ∃ later last, tokens = done.reverse ++ later ∧ Path source scanner later last ∧
      last.step source = .finished after := by
  induction done, scanner using Scanner.run.induct source with
  | case1 done scanner ending hstep =>
    rw [run_of_finished hstep] at h
    cases h
    exact ⟨[], scanner, (List.append_nil _).symm, .stay scanner, hstep⟩
  | case2 done scanner error ending hstep =>
    rw [run_of_failed hstep] at h
    cases h
  | case3 done scanner token next hstep ih =>
    rw [run_of_token hstep] at h
    obtain ⟨later, last, htokens, hpath, hlast⟩ := ih h
    refine ⟨token :: later, last, ?_, .step hstep hpath, hlast⟩
    rw [htokens, List.reverse_cons, List.append_assoc]
    rfl

theorem path_of_run_error {error : LexError} {done : List Token}
    (h : scanner.run source done = (.error error, after)) :
    ∃ tokens last, Path source scanner tokens last ∧ last.step source = .failed error after := by
  induction done, scanner using Scanner.run.induct source with
  | case1 done scanner ending hstep =>
    rw [run_of_finished hstep] at h
    cases h
  | case2 done scanner other ending hstep =>
    rw [run_of_failed hstep] at h
    cases h
    exact ⟨[], scanner, .stay scanner, hstep⟩
  | case3 done scanner token next hstep ih =>
    rw [run_of_token hstep] at h
    obtain ⟨tokens, last, hpath, hlast⟩ := ih h
    exact ⟨token :: tokens, last, .step hstep hpath, hlast⟩

/-- The tokens of a text are those of a path to its end. -/
theorem tokenize_of_path {text : String} {tokens : List Token}
    (h : Path none (.ofText text) tokens last) (hlast : last.step none = .finished after) :
    tokenize text = .ok tokens := by
  rw [tokenize_eq, run_of_path h, run_of_finished hlast, List.append_nil, List.reverse_reverse]

theorem path_of_tokenize_ok {text : String} {tokens : List Token} (h : tokenize text = .ok tokens) :
    ∃ last after, Path none (.ofText text) tokens last ∧ last.step none = .finished after := by
  rw [tokenize_eq] at h
  obtain ⟨later, last, hlater, hpath, hlast⟩ := path_of_run_ok (Prod.ext h rfl)
  obtain rfl : tokens = later := hlater
  exact ⟨last, _, hpath, hlast⟩

theorem path_of_tokenize_error {text : String} {error : LexError}
    (h : tokenize text = .error error) :
    ∃ tokens last after, Path none (.ofText text) tokens last ∧
      last.step none = .failed error after := by
  rw [tokenize_eq] at h
  obtain ⟨tokens, last, hpath, hlast⟩ := path_of_run_error (Prod.ext h rfl)
  exact ⟨tokens, last, _, hpath, hlast⟩

/-- The tokens of a path lead from the mode that it begins in to the one that it ends in. -/
theorem afterAll?_of_path {tokens : List Token} (h : Path source scanner tokens last) :
    afterAll? scanner.mode (tokens.map Token.kind) = some last.mode := by
  induction h with
  | stay scanner => rfl
  | @step scanner next last token tokens hstep _ ih =>
    obtain ⟨gap, taken, hpasses⟩ := passes_of_step hstep
    have hsteers : after? scanner.mode token.kind = some next.mode := hpasses.sound.steers
    rw [List.map_cons, afterAll?, List.foldlM_cons, hsteers]
    exact ih

/-! ### Where a scanner stands -/

/-- The place behind some part of the text. -/
def PlaceIn (text : List Char) (place : Place) : Prop :=
  ∃ before, before <+: text ∧ place = Place.start.after before

/-- What the scanner has passed over and what lies in front of it make up the text. -/
def StandsIn (text : List Char) (scanner : Scanner) : Prop :=
  ∃ before, text = before ++ scanner.rest ∧ scanner.place = Place.start.after before

variable {text : List Char}

theorem standsIn_ofText (text : String) : StandsIn text.toList (.ofText text) := ⟨[], rfl, rfl⟩

theorem StandsIn.placeIn (h : StandsIn text scanner) : PlaceIn text scanner.place := by
  obtain ⟨before, htext, hplace⟩ := h
  exact ⟨before, ⟨scanner.rest, htext.symm⟩, hplace⟩

/-- A scanner that goes on stands in the text too. -/
theorem StandsIn.onward (h : StandsIn text scanner) (mode : Mode) {passed rest : List Char}
    (hrest : scanner.rest = passed ++ rest) :
    StandsIn text ⟨scanner.place.after passed, mode, rest⟩ := by
  obtain ⟨before, htext, hplace⟩ := h
  refine ⟨before ++ passed, ?_, ?_⟩
  · rw [htext, hrest, List.append_assoc]
  · rw [Place.after_append, hplace]

theorem StandsIn.token (h : StandsIn text scanner) {token : Token} {next : Scanner}
    (hstep : scanner.step source = .token token next) :
    PlaceIn text token.place ∧ StandsIn text next := by
  obtain ⟨gap, taken, hpasses⟩ := passes_of_step hstep
  have hgap := h.onward scanner.mode hpasses.rest_eq
  have hnext := hgap.onward next.mode rfl
  rw [← hpasses.place_eq] at hgap hnext
  rw [← hpasses.after_eq] at hnext
  exact ⟨hgap.placeIn, hnext⟩

theorem StandsIn.finished (h : StandsIn text scanner)
    (hstep : scanner.step source = .finished after) : StandsIn text after := by
  have houtcome := outcome_step source scanner
  rw [hstep] at houtcome
  cases houtcome with
  | finished hgap => exact h.onward scanner.mode (List.append_nil _).symm

theorem StandsIn.failed (h : StandsIn text scanner) {error : LexError}
    (hstep : scanner.step source = .failed error after) :
    (∃ place cause, PlaceIn text place ∧ error = Scanner.errorAt place cause) ∧
      StandsIn text after := by
  have houtcome := outcome_step source scanner
  rw [hstep] at houtcome
  cases houtcome with
  | @failed gap cs c halt hrest hgap hcut =>
    have hsource := source_cut scanner.mode c cs
    rw [hcut, Scan.source] at hsource
    have hfront := h.onward scanner.mode hrest
    exact ⟨⟨_, halt.cause, hfront.placeIn, rfl⟩, hfront.onward scanner.mode hsource.symm⟩

/-- Every scanner on a path through a text stands in it, and so does every token. -/
theorem StandsIn.path (h : StandsIn text scanner) {tokens : List Token}
    (hpath : Path source scanner tokens last) :
    (∀ token ∈ tokens, PlaceIn text token.place) ∧ StandsIn text last := by
  induction hpath with
  | stay scanner => exact ⟨by simp, h⟩
  | step hstep _ ih =>
    obtain ⟨htoken, hnext⟩ := h.token hstep
    obtain ⟨htokens, hlast⟩ := ih hnext
    exact ⟨List.forall_mem_cons.mpr ⟨htoken, htokens⟩, hlast⟩

end ResourceLang.Proofs.ScannerPath
