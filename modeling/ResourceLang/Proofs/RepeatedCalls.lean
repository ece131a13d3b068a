import Mathlib.Tactic.SplitIfs
import ResourceLang.Proofs.PlaceShift

/-!
A lexer called again and again. Tokens are kept, so a text that was cut once is never cut anew. An
attempt that fails leaves the scanner where it failed and fails there again, except at a malformed
resource id: that one is passed over as far as it was read, and the next call goes on behind it.
-/

set_option autoImplicit false
set_option relaxedAutoImplicit false

namespace ResourceLang.Proofs.RepeatedCalls

open Text Token Token.Scan CutRules Utf8Reading ScannerRun PlaceShift

variable {source : Option SourceId} {scanner after : Scanner} {error : LexError}

/-! ### Attempts that fail -/

section Cut

variable {mode : Mode} {c : Char} {cs : List Char} {halt : Halt}

theorem taken_cutString_eq_nil_iff (h : cutString mode cs = .error halt) :
    halt.taken = [] ↔ halt.cause ≠ .malformedResourceId := by
  unfold cutString at h
  split at h
  · obtain rfl := Except.error.inj h
    exact iff_of_true rfl nofun
  · cases h

theorem taken_cutResourceId_eq_nil_iff (h : cutResourceId mode cs = .error halt) :
    halt.taken = [] ↔ halt.cause ≠ .malformedResourceId := by
  unfold cutResourceId at h
  split at h
  · cases h
  · obtain rfl := Except.error.inj h
    exact iff_of_true rfl nofun
  · simp only [] at h
    split at h
    · obtain rfl := Except.error.inj h
      exact iff_of_false (List.cons_ne_nil _ _) fun hcause ↦ hcause rfl
    · cases h

theorem taken_cutDollar_eq_nil_iff (h : cutDollar mode cs = .error halt) :
    halt.taken = [] ↔ halt.cause ≠ .malformedResourceId := by
  unfold cutDollar at h
  split at h
  · obtain rfl := Except.error.inj h
    exact iff_of_true rfl nofun
  · obtain rfl := Except.error.inj h
    exact iff_of_true rfl nofun
  · split_ifs at h
    obtain rfl := Except.error.inj h
    exact iff_of_true rfl nofun

theorem taken_cutSymbol_eq_nil_iff (h : cutSymbol mode c cs = .error halt) :
    halt.taken = [] ↔ halt.cause ≠ .malformedResourceId := by
  unfold cutSymbol at h
  split_ifs at h
  split at h
  · cases h
  · obtain rfl := Except.error.inj h
    exact iff_of_true rfl nofun

/-- Only an attempt at a malformed resource id takes anything before it fails. -/
theorem taken_eq_nil_iff_of_cut (h : cut mode c cs = .error halt) :
    halt.taken = [] ↔ halt.cause ≠ .malformedResourceId := by
  cases byRule_of_cut h with
  | string _ hcut => exact taken_cutString_eq_nil_iff hcut
  | resourceId _ hcut => exact taken_cutResourceId_eq_nil_iff hcut
  | dollar _ hcut => exact taken_cutDollar_eq_nil_iff hcut
  | symbol _ _ _ _ hcut => exact taken_cutSymbol_eq_nil_iff hcut
  -- No other rule fails.
  | directive _ hcut => cases hcut
  | hexadecimal _ _ hcut => cases hcut
  | number _ _ hcut => cases hcut
  | negative _ _ hcut => cases hcut
  | identifier _ hcut => cases hcut

end Cut

theorem cause_of_errorAt {place other : Place} {cause : Cause}
    (h : Scanner.errorAt place cause = .malformedResourceId other) :
    cause = .malformedResourceId := by
  cases cause with
  | malformedResourceId => rfl
  | unrecognised => cases h
  | endOfText => cases h
  | unterminatedString => cases h

/-- What a failed step leaves behind: at a malformed resource id a scanner further on, and at any
other error one that fails in the same way. -/
theorem step_of_failed (h : scanner.step source = .failed error after) :
    (∃ place, error = .malformedResourceId place ∧ place.position < after.place.position) ∨
      (∀ place, error ≠ .malformedResourceId place) ∧ after.step source = .failed error after := by
  have houtcome := outcome_step source scanner
  rw [h] at houtcome
  cases houtcome with
  | @failed gap cs c halt hrest hgap hcut =>
    have htaken := taken_eq_nil_iff_of_cut hcut
    by_cases hcause : halt.cause = .malformedResourceId
    · left
      refine ⟨scanner.place.after gap, by rw [hcause]; rfl, ?_⟩
      have hne : halt.taken ≠ [] := fun hnil ↦ htaken.mp hnil hcause
      have hpos := List.length_pos_iff.mpr (encode_ne_nil hne)
      have hafter := position_after (scanner.place.after gap) halt.taken
      exact hafter ▸ Nat.lt_add_of_pos_right hpos
    · right
      have hnil := htaken.mpr hcause
      have hsource := source_cut scanner.mode c cs
      rw [hcut, Scan.source, hnil, List.nil_append] at hsource
      refine ⟨fun place hsame ↦ hcause (cause_of_errorAt hsame), ?_⟩
      have hstep := @step_of_gap source gap (c :: cs) hgap scanner.place scanner.mode
      rw [← hrest] at hstep
      rw [hnil, hsource] at h ⊢
      exact hstep.symm.trans h

/-! ### Runs that fail -/

/-- A run fails at a step that does, and not in front of where it began. -/
theorem failed_of_run {done : List Token} (h : scanner.run source done = (.error error, after)) :
    ∃ last : Scanner, last.step source = .failed error after ∧
      scanner.place.position ≤ last.place.position := by
  induction done, scanner using Scanner.run.induct source with
  | case1 done scanner last hstep =>
    rw [run_of_finished hstep] at h
    cases h
  | case2 done scanner error last hstep =>
    rw [run_of_failed hstep] at h
    cases h
    exact ⟨scanner, hstep, le_rfl⟩
  | case3 done scanner token next hstep ih =>
    rw [run_of_token hstep] at h
    obtain ⟨gap, taken, hpasses⟩ := passes_of_step hstep
    obtain ⟨last, hlast, hle⟩ := ih h
    refine ⟨last, hlast, le_trans ?_ hle⟩
    rw [hpasses.after_eq, hpasses.place_eq, position_after, position_after, Nat.add_assoc]
    exact Nat.le_add_right _ _

theorem position_le_of_failed (h : scanner.step source = .failed error after) :
    scanner.place.position ≤ error.position := by
  have houtcome := outcome_step source scanner
  rw [h] at houtcome
  cases houtcome with
  | @failed gap cs c halt hrest hgap hcut =>
    have hplace : scanner.place.position ≤ (scanner.place.after gap).position := by
      rw [position_after]
      exact Nat.le_add_right _ _
    refine le_trans hplace ?_
    cases halt.cause with
    | endOfText => exact Nat.le_succ _
    | _ => exact le_rfl

/-- The error of a run that fails again is the same only if it is not at a malformed resource id. -/
theorem run_after_error {done : List Token} (h : scanner.run source done = (.error error, after)) :
    (∀ place, error ≠ .malformedResourceId place) ∧ after.run source [] = (.error error, after) ∨
      (∃ place, error = .malformedResourceId place) ∧ (after.run source []).1 ≠ .error error := by
  obtain ⟨last, hlast, _⟩ := failed_of_run h
  rcases step_of_failed hlast with ⟨place, rfl, hlt⟩ | ⟨hother, hagain⟩
  · right
    refine ⟨⟨place, rfl⟩, fun hsame ↦ ?_⟩
    obtain ⟨next, hnext, hle⟩ := failed_of_run (Prod.ext hsame rfl)
    have hplace := position_le_of_failed hnext
    exact absurd hlt (Nat.not_lt.mpr (le_trans hle hplace))
  · exact .inl ⟨hother, run_of_failed hagain []⟩

/-! ### Calls -/

/-- The lexer after so many calls. -/
def afterCalls (lexer : Lexer) : Nat → Lexer
  | 0 => lexer
  | count + 1 => (afterCalls lexer count).resume.2

theorem resume_of_tokens {lexer : Lexer} {tokens : List Token} (h : lexer.tokens = some tokens) :
    lexer.resume = (.ok tokens, lexer) := by
  rw [Lexer.resume, h]

/-- A call of a lexer that holds no tokens is a run, and its tokens are kept. -/
theorem resume_of_none {lexer : Lexer} (h : lexer.tokens = none) {scanner : Scanner}
    {result : Except LexError (List Token)}
    (hrun : lexer.scanner.run lexer.source [] = (result, scanner)) :
    lexer.resume = (result, ⟨lexer.text, lexer.source, scanner, result.toOption⟩) := by
  rw [Lexer.resume, h, hrun]
  cases result with
  | ok tokens => rfl
  | error error => rfl

/-- After a call that did not stop at a malformed resource id the next one changes nothing. -/
theorem resume_resume {lexer : Lexer}
    (h : ∀ place, lexer.resume.1 ≠ .error (.malformedResourceId place)) :
    lexer.resume.2.resume = lexer.resume := by
  cases htokens : lexer.tokens with
  | some tokens => rw [resume_of_tokens htokens, resume_of_tokens htokens]
  | none =>
    cases hrun : lexer.scanner.run lexer.source [] with
    | mk result scanner =>
      have hfirst := resume_of_none htokens hrun
      rw [hfirst] at h ⊢
      cases result with
      | ok tokens => exact resume_of_tokens rfl
      | error error =>
        rcases run_after_error hrun with ⟨_, hagain⟩ | ⟨⟨place, rfl⟩, _⟩
        · exact resume_of_none rfl hagain
        · exact absurd rfl (h place)

theorem resume_afterCalls {lexer : Lexer} (h : lexer.resume.2.resume = lexer.resume) (count : Nat) :
    (afterCalls lexer count).resume = lexer.resume := by
  induction count with
  | zero => rfl
  | succ count ih => rw [afterCalls, ih, h]

/-- The call after one that stopped at a malformed resource id does not stop there again. -/
theorem resume_ne_of_malformed {lexer : Lexer} {place : Place}
    (h : lexer.resume.1 = .error (.malformedResourceId place)) :
    lexer.resume.2.resume.1 ≠ .error (.malformedResourceId place) := by
  cases htokens : lexer.tokens with
  | some tokens =>
    rw [resume_of_tokens htokens] at h
    cases h
  | none =>
    cases hrun : lexer.scanner.run lexer.source [] with
    | mk result scanner =>
      have hfirst := resume_of_none htokens hrun
      rw [hfirst] at h ⊢
      obtain rfl : result = .error (.malformedResourceId place) := h
      rcases run_after_error hrun with ⟨hother, _⟩ | ⟨_, hne⟩
      · exact absurd rfl (hother place)
      · rwa [resume_of_none rfl rfl]

/-- Every call gives what the first one gave exactly when that was not the error of a malformed
resource id: after that one already the second call gives something else. -/
theorem resume_eq_first_iff (lexer : Lexer) :
    (∀ count, (afterCalls lexer count).resume.1 = lexer.resume.1) ↔
      ∀ place, lexer.resume.1 ≠ .error (.malformedResourceId place) := by
  constructor
  · intro hall place hfirst
    exact resume_ne_of_malformed hfirst ((hall 1).trans hfirst)
  · intro hfirst count
    rw [resume_afterCalls (resume_resume hfirst)]

/-- A text that the first call refuses for a resource id without a number, and of which the next one
gives the number behind. -/
theorem resume_accepts_refused :
    (Lexer.ofText "#x. 5").resume.1 = .error (.malformedResourceId ⟨0, 1, 0⟩) ∧
      (afterCalls (.ofText "#x. 5") 1).resume.1 = .ok [⟨.plain .integer "5", ⟨4, 1, 4⟩, none⟩] := by
  constructor
  · decide +kernel
  · decide +kernel

end ResourceLang.Proofs.RepeatedCalls
