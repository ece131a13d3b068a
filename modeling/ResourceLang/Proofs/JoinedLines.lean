import ResourceLang.Proofs.CutLocality
import ResourceLang.Proofs.PlaceShift

/-!
Texts joined by a line feed. A run over the first text goes on into the second where it came to the
end before: no token of the first is cut off differently because more follows its last line. What
the second text comes to then is what it comes to alone, at places moved by the bytes and lines of
the first, as long as the first leaves no expression open.
-/

set_option autoImplicit false
set_option relaxedAutoImplicit false

namespace ResourceLang.Proofs.JoinedLines

open Text Token Token.Scan LexemeGrammar SpelledLexemes CutLocality ScannerRun PlaceShift

variable {source : Option SourceId} {scanner after : Scanner}

/-! ### More lines behind the text -/

/-- The scanner with a line feed and more text behind its own. -/
def onward (scanner : Scanner) (more : List Char) : Scanner :=
  ⟨scanner.place, scanner.mode, scanner.rest ++ '\n' :: more⟩

theorem stops_line (more : List Char) : Stops ('\n' :: more) := by
  intro c hc
  obtain rfl : '\n' = c := Option.some.inj hc
  rfl

/-- A comment that went on to the end of the text goes on to the line feed. -/
theorem gap_onward {gap rest : List Char} (h : Gap gap rest) (more : List Char) :
    Gap gap (rest ++ '\n' :: more) := by
  induction h with
  | nil rest => exact .nil _
  | blank hc _ ih => exact .blank hc ih
  | @comment body gap rest hbody hend _ ih =>
    refine .comment hbody ?_ ih
    rw [← List.append_assoc]
    cases hcs : gap ++ rest with
    | nil =>
      intro c hc
      exact (Option.some.inj hc).symm
    | cons d cs =>
      rw [hcs] at hend
      exact hend

theorem step_onward_of_token {token : Token} (h : scanner.step source = .token token after)
    (more : List Char) : (onward scanner more).step source = .token token (onward after more) := by
  have houtcome := outcome_step source scanner
  rw [h] at houtcome
  cases houtcome with
  | @token gap cs c result hrest hgap hcut =>
    have hcuts : Cuts scanner.mode (c :: cs ++ '\n' :: more) (extend result ('\n' :: more)) :=
      ⟨c, cs ++ '\n' :: more, rfl, cut_local (stops_line more) hcut⟩
    have hstep :=
      @step_of_cuts source scanner.mode gap _ _ (gap_onward hgap more) hcuts scanner.place
    rw [onward, hrest, List.append_assoc]
    exact hstep

/-- Where the first text has come to its end, the scanner goes on at the start of the next line. -/
theorem step_onward_of_finished (h : scanner.step source = .finished after) (more : List Char) :
    (onward scanner more).step source =
      Scanner.step source ⟨after.place.next '\n', after.mode, more⟩ := by
  have houtcome := outcome_step source scanner
  rw [h] at houtcome
  cases houtcome with
  | finished hgap =>
    have hline : Gap ['\n'] more := .blank rfl (.nil more)
    calc (onward scanner more).step source
        = Scanner.step source ⟨scanner.place.after scanner.rest, scanner.mode, '\n' :: more⟩ :=
          step_of_gap (gap_onward hgap more) scanner.place scanner.mode
      _ = Scanner.step source ⟨(scanner.place.after scanner.rest).next '\n', scanner.mode, more⟩ :=
          step_of_gap hline _ scanner.mode

/-- A run that reaches the end of the first text goes on with the tokens it has read. -/
theorem run_onward {tokens done : List Token} (h : scanner.run source done = (.ok tokens, after))
    (more : List Char) :
    (onward scanner more).run source done =
      Scanner.run source tokens.reverse ⟨after.place.next '\n', after.mode, more⟩ := by
  induction done, scanner using Scanner.run.induct source with
  | case1 done scanner last hstep =>
    rw [run_of_finished hstep] at h
    cases h
    rw [List.reverse_reverse]
    exact run_congr (step_onward_of_finished hstep more) done
  | case2 done scanner error last hstep =>
    rw [run_of_failed hstep] at h
    cases h
  | case3 done scanner token next hstep ih =>
    rw [run_of_token hstep] at h
    rw [run_of_token (step_onward_of_token hstep more)]
    exact ih h

/-! ### Open expressions -/

/-- How many expressions are open in a mode. -/
def openings : Mode → Nat
  | .outside => 0
  | .inside _ => 1

theorem openings_after? {mode next : Mode} {kind : Kind} (h : after? mode kind = some next) :
    openings mode + [kind].count .expressionOpen = openings next +
      [kind].count .expressionClose := by
  by_cases hmodal : kind ∈ modal
  · rcases mode with _ | _ | depth <;> cases kind <;> cases h <;> rfl
  · rw [after?_eq_self hmodal] at h
    obtain rfl := Option.some.inj h
    have hopen : kind ≠ .expressionOpen := by
      rintro rfl
      exact hmodal (by decide)
    have hclose : kind ≠ .expressionClose := by
      rintro rfl
      exact hmodal (by decide)
    rw [List.count_singleton, List.count_singleton]
    simp [hopen, hclose]

/-- Expressions opened are closed again or open at the end. -/
theorem openings_afterAll? {mode last : Mode} {kinds : List Kind}
    (h : afterAll? mode kinds = some last) :
    openings mode + kinds.count .expressionOpen = openings last + kinds.count .expressionClose := by
  induction kinds generalizing mode with
  | nil =>
    obtain rfl := Option.some.inj h
    rfl
  | cons kind kinds ih =>
    rw [afterAll?, List.foldlM_cons] at h
    obtain ⟨next, hnext, hrest⟩ := Option.bind_eq_some_iff.mp h
    have hstep := openings_after? hnext
    have hkinds := ih hrest
    rw [← List.singleton_append, List.count_append, List.count_append]
    omega

theorem eq_outside_of_openings {mode : Mode} (h : openings mode = 0) : mode = .outside := by
  cases mode with
  | outside => rfl
  | inside depth => cases h

/-! ### Two texts -/

/-- How much further on a place is below a text and the line feed behind it. -/
def below (text : String) : Shift := ⟨text.utf8ByteSize + 1, text.toList.count '\n' + 1⟩

theorem next_after_start (text : String) :
    (Place.start.after text.toList).next '\n' = (below text).place .start := by
  have hposition := position_after .start text.toList
  have hline := line_after .start text.toList
  rw [← utf8ByteSize_eq_length_encode] at hposition
  rw [Place.next, if_pos rfl, hposition, hline]
  simp only [below, Shift.place, Place.start, Nat.zero_add, Nat.add_assoc]

/-- A text whose tokens open no expression that they leave open can be cut by itself: the tokens of
the text and another below it are its own and those of the other, moved by the bytes and lines above
them. An error in the other is the same error, moved alike. -/
theorem tokenize_append_line {first : String} {tokens : List Token}
    (h : tokenize first = .ok tokens)
    (hclosed : (tokens.map Token.kind).count .expressionOpen =
      (tokens.map Token.kind).count .expressionClose) (second : String) :
    tokenize (first ++ "\n" ++ second) =
      match tokenize second with
      | .ok later => .ok (tokens ++ later.map (below first).token)
      | .error error => .error ((below first).error error) := by
  rw [tokenize_eq] at h
  obtain ⟨after, hrun⟩ : ∃ after, (Scanner.ofText first).run none [] = (.ok tokens, after) :=
    ⟨_, Prod.ext h rfl⟩
  obtain ⟨later, htokens, hmode, hplace, _⟩ := run_ok hrun
  obtain rfl : tokens = later := htokens
  have houtside : after.mode = .outside := by
    have hcount := openings_afterAll? hmode
    have hstart : openings (Scanner.ofText first).mode = 0 := rfl
    exact eq_outside_of_openings (by omega)
  have hjoined : Scanner.ofText (first ++ "\n" ++ second) =
      onward (.ofText first) second.toList := by
    simp [Scanner.ofText, onward]
  have hnext : (⟨after.place.next '\n', after.mode, second.toList⟩ : Scanner) =
      (below first).scanner (.ofText second) := by
    rw [hplace, houtside, Shift.scanner, Scanner.ofText, Scanner.ofText, next_after_start]
  have hsecond := (below first).run_scanner none [] (.ofText second)
  rw [List.map_nil] at hsecond
  have hrest := @run_append none [] tokens.reverse ((below first).scanner (.ofText second))
  rw [List.nil_append, List.reverse_reverse, hsecond] at hrest
  rw [tokenize_eq, tokenize_eq, hjoined, run_onward hrun, hnext, hrest]
  cases ((Scanner.ofText second).run none []).1 with
  | ok later => rfl
  | error error => rfl

/-- A text that ends where one character more would make another token of its last. -/
def openLines : String := "$(a) \"é\n\" <"

def openLinesTokens : List Token :=
  [⟨.plain .expressionOpen "$(", ⟨0, 1, 0⟩, none⟩, ⟨.plain .identifier "a", ⟨2, 1, 2⟩, none⟩,
    ⟨.plain .expressionClose ")", ⟨3, 1, 3⟩, none⟩, ⟨.plain .string "é\n", ⟨5, 1, 5⟩, none⟩,
    ⟨.plain .leftAngle "<", ⟨11, 2, 2⟩, none⟩]

theorem tokenize_append_line_openLines :
    tokenize openLines = .ok openLinesTokens ∧
      (openLinesTokens.map Token.kind).count .expressionOpen =
        (openLinesTokens.map Token.kind).count .expressionClose ∧
      tokenize (openLines ++ "\n" ++ "< #a.") =
        .error (.malformedResourceId ⟨15, 3, 2⟩) ∧
      tokenize (openLines ++ "\n" ++ "<\n-5") =
        .ok (openLinesTokens ++ [⟨.plain .leftAngle "<", ⟨13, 3, 0⟩, none⟩,
          ⟨.plain .integer "-5", ⟨15, 4, 0⟩, none⟩]) := by
  have h : tokenize openLines = .ok openLinesTokens := by decide +kernel
  have hfails : tokenize "< #a." = .error (.malformedResourceId ⟨2, 1, 2⟩) := by decide +kernel
  have hreads : tokenize "<\n-5" = .ok [⟨.plain .leftAngle "<", ⟨0, 1, 0⟩, none⟩,
      ⟨.plain .integer "-5", ⟨2, 2, 0⟩, none⟩] := by decide +kernel
  refine ⟨h, rfl, ?_, ?_⟩
  · rw [tokenize_append_line h rfl, hfails]
    rfl
  · rw [tokenize_append_line h rfl, hreads]
    rfl

end ResourceLang.Proofs.JoinedLines
