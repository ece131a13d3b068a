import Mathlib.Tactic.SplitIfs
import ResourceLang.Proofs.ByteRules

/-!
A scanner of bytes never reads within a character. Step by step it stands where the scanner of
characters does, so in no call of its lexer, the first or a later one, does an operation break down,
and each call gives what the lexer of characters gives.
-/

set_option autoImplicit false
set_option relaxedAutoImplicit false

namespace ResourceLang.Proofs.WholeCharacters

open Text Token Token.Scan Utf8Reading SpelledLexemes ScannerRun ByteScanner ByteReading ByteRules

variable {bytes : List UInt8} {source : Option SourceId} {cursor after : Cursor} {scanner : Scanner}

/-! ### Steps -/

/-- What a step on bytes comes to where a scanner of characters stands: one blank or comment is
passed over, or everything that a step on characters does is done. -/
inductive Follows (bytes : List UInt8) (source : Option SourceId) (scanner : Scanner) :
    ByteScanner.Step → Prop
  | finished (hrest : scanner.rest = []) : Follows bytes source scanner .finished
  | gap {gap rest : List Char} {after : Cursor} (hrest : scanner.rest = gap ++ rest)
      (hne : gap ≠ []) (hgap : Gap gap rest)
      (hafter : Stands bytes after ⟨scanner.place.after gap, scanner.mode, rest⟩) :
      Follows bytes source scanner (.onward none after)
  | token {token : Token} {next : Scanner} {after : Cursor}
      (hstep : scanner.step source = .token token next)
      (hafter : Stands bytes after next) : Follows bytes source scanner (.onward (some token) after)
  | failed {error : LexError} {next : Scanner} {after : Cursor}
      (hstep : scanner.step source = .failed error next)
      (hafter : Stands bytes after next) : Follows bytes source scanner (.failed error after)

section Step

variable {place : Place} {mode : Mode} {c : Char} {cs : List Char}

theorem skipGap_of_not_gap (hblank : isBlank c = false) (hcomment : c ≠ '\x60') :
    skipGap false place (c :: cs) = (place, c :: cs) := by
  rw [skipGap, if_neg (by simp), if_neg (by simp [hblank]), if_neg hcomment]

theorem step_of_cut_ok {result : Cut} (hblank : isBlank c = false) (hcomment : c ≠ '\x60')
    (hcut : cut mode c cs = .ok result) :
    Scanner.step source ⟨place, mode, c :: cs⟩ =
      .token ⟨result.lexeme, place, source⟩
        ⟨place.after result.taken, result.mode, result.rest⟩ := by
  unfold Scanner.step
  simp only [skipGap_of_not_gap hblank hcomment, hcut]

theorem step_of_cut_error {halt : Halt} (hblank : isBlank c = false) (hcomment : c ≠ '\x60')
    (hcut : cut mode c cs = .error halt) :
    Scanner.step source ⟨place, mode, c :: cs⟩ =
      .failed (Scanner.errorAt place halt.cause) ⟨place.after halt.taken, mode, halt.rest⟩ := by
  unfold Scanner.step
  simp only [skipGap_of_not_gap hblank hcomment, hcut]

theorem follows_blank (h : Stands bytes cursor ⟨place, mode, c :: cs⟩)
    (hc : c = ' ' ∨ c = '\t' ∨ c = '\r') :
    ∃ after, moveTo bytes cursor (cursor.position + 1) = .ok after ∧
      Follows bytes source ⟨place, mode, c :: cs⟩ (.onward none after) := by
  have hascii : c.toNat < 128 := by rcases hc with rfl | rfl | rfl <;> decide
  have hline : c ≠ '\n' := by rcases hc with rfl | rfl | rfl <;> decide
  have hblank : isBlank c = true := by rcases hc with rfl | rfl | rfl <;> rfl
  obtain ⟨after, hmove, hafter⟩ := h.moveTo_next hascii hline
  exact ⟨after, hmove, @Follows.gap _ _ _ [c] cs _ rfl (List.cons_ne_nil _ _)
    (.blank hblank (.nil _)) hafter⟩

theorem follows_newline (h : Stands bytes cursor ⟨place, mode, '\n' :: cs⟩) :
    ∃ after, moveTo bytes (cursor.newlineAt cursor.position) (cursor.position + 1) = .ok after ∧
      Follows bytes source ⟨place, mode, '\n' :: cs⟩ (.onward none after) := by
  have hahead := h.ahead_next (by decide)
  have hcounts : Counts (cursor.newlineAt cursor.position) (place.next '\n') := by
    refine ⟨congrArg (· + 1) h.counts.line_eq, ?_⟩
    rw [← h.position_eq]
    rfl
  obtain ⟨after, hmove, hafter⟩ :=
    Stands.of_moveTo hahead (h.position_after ['\n']) hcounts h.mode_eq
  exact ⟨after, hmove, @Follows.gap _ _ _ ['\n'] cs _ rfl (List.cons_ne_nil _ _)
    (.blank rfl (.nil _)) hafter⟩

theorem follows_comment (h : Stands bytes cursor ⟨place, mode, '\x60' :: cs⟩) :
    ∃ passed, consumeWhile bytes (· ≠ '\n') cursor = .ok passed ∧
      Follows bytes source ⟨place, mode, '\x60' :: cs⟩ (.onward none passed.after) := by
  obtain ⟨after, hconsume, hafter⟩ := h.consumeWhile (@uniform_ne '\n' (by decide)) rfl
  have htake : ('\x60' :: cs).takeWhile (· ≠ '\n') = '\x60' :: cs.takeWhile (· ≠ '\n') := by simp
  have hdrop : ('\x60' :: cs).dropWhile (· ≠ '\n') = cs.dropWhile (· ≠ '\n') := by simp
  rw [htake, hdrop] at hafter
  have hbody : '\n' ∉ cs.takeWhile (· ≠ '\n') :=
    CutSoundness.not_mem_of_class rfl (CutSoundness.forall_takeWhile _ cs)
  have hend : ∀ c ∈ (cs.dropWhile (· ≠ '\n')).head?, c = '\n' := by
    intro c hc
    have hhead := List.head?_dropWhile_not (fun c : Char ↦ decide (c ≠ '\n')) cs
    rw [Option.mem_def.mp hc] at hhead
    simpa using hhead
  have hgap : Gap ('\x60' :: cs.takeWhile (· ≠ '\n')) (cs.dropWhile (· ≠ '\n')) := by
    have hcomment := @Gap.comment _ [] (cs.dropWhile (· ≠ '\n')) hbody hend (.nil _)
    rwa [List.append_nil] at hcomment
  refine ⟨_, hconsume, @Follows.gap _ _ _ _ _ after ?_ (List.cons_ne_nil _ _) hgap hafter⟩
  rw [List.cons_append, List.takeWhile_append_dropWhile]

theorem follows_token (h : Stands bytes cursor ⟨place, mode, c :: cs⟩) (hblank : isBlank c = false)
    (hcomment : c ≠ '\x60') :
    ∃ scanned, scanToken bytes cursor (asChar (firstByte c)) = .ok scanned ∧
      Follows bytes source ⟨place, mode, c :: cs⟩ (stepOf cursor.place source scanned) := by
  have hagrees := agrees_scanToken h
  rw [h.place_eq]
  generalize hcut : cut mode c cs = result at hagrees
  generalize scanToken bytes cursor (asChar (firstByte c)) = scanned at hagrees
  cases hagrees with
  | token hafter => exact ⟨_, rfl, .token (step_of_cut_ok hblank hcomment hcut) hafter⟩
  | failed hafter => exact ⟨_, rfl, .failed (step_of_cut_error hblank hcomment hcut) hafter⟩

end Step

/-- Every step on bytes follows one on characters, and none breaks down. -/
theorem follows_step (source : Option SourceId) (h : Stands bytes cursor scanner) :
    ∃ step, ByteScanner.step bytes source cursor = .ok step ∧
      Follows bytes source scanner step := by
  obtain ⟨place, mode, rest⟩ := scanner
  rw [ByteScanner.step]
  cases rest with
  | nil =>
    rw [h.ahead.byte?_nil]
    exact ⟨_, rfl, .finished rfl⟩
  | cons c cs =>
    rw [h.ahead.byte?_cons]
    dsimp only
    simp only [asChar_firstByte_eq_iff (show ' '.toNat < 128 by decide),
      asChar_firstByte_eq_iff (show '\t'.toNat < 128 by decide),
      asChar_firstByte_eq_iff (show '\r'.toNat < 128 by decide),
      asChar_firstByte_eq_iff (show '\n'.toNat < 128 by decide),
      asChar_firstByte_eq_iff (show '\x60'.toNat < 128 by decide)]
    split_ifs with hblank hline hcomment
    · obtain ⟨after, hmove, hfollows⟩ := @follows_blank _ source _ _ _ _ _ h hblank
      rw [hmove]
      exact ⟨_, rfl, hfollows⟩
    · subst hline
      obtain ⟨after, hmove, hfollows⟩ := @follows_newline _ source _ _ _ _ h
      rw [hmove]
      exact ⟨_, rfl, hfollows⟩
    · subst hcomment
      obtain ⟨passed, hconsume, hfollows⟩ := @follows_comment _ source _ _ _ _ h
      rw [hconsume]
      exact ⟨_, rfl, hfollows⟩
    · have hnone : isBlank c = false := by
        rw [not_or, not_or] at hblank
        simp [isBlank, hblank, hline]
      obtain ⟨scanned, hscan, hfollows⟩ := @follows_token _ source _ _ _ _ _ h hnone hcomment
      rw [hscan]
      exact ⟨_, rfl, hfollows⟩

/-! ### Runs -/

/-- The cursors at which a step is made, in one call or another. A call after an error begins where
the error left the cursor. -/
inductive Reached (bytes : List UInt8) (source : Option SourceId) : Cursor → Prop
  | start : Reached bytes source .start
  | onward {cursor after : Cursor} {token : Option Token} (h : Reached bytes source cursor)
      (hstep : ByteScanner.step bytes source cursor = .ok (.onward token after)) :
        Reached bytes source after
  | failed {cursor after : Cursor} {error : LexError} (h : Reached bytes source cursor)
      (hstep : ByteScanner.step bytes source cursor = .ok (.failed error after)) :
        Reached bytes source after

/-- Wherever a cursor comes to, a scanner of characters may stand. -/
theorem stands_of_reached {text : String} (h : Reached (Utf8.bytes text) source cursor) :
    ∃ scanner, Stands (Utf8.bytes text) cursor scanner := by
  induction h with
  | start => exact ⟨_, stands_ofText text⟩
  | onward _ hstep ih =>
    obtain ⟨scanner, hstands⟩ := ih
    obtain ⟨step, hsame, hfollows⟩ := follows_step source hstands
    obtain rfl := Except.ok.inj (hsame.symm.trans hstep)
    cases hfollows with
    | gap _ _ _ hafter => exact ⟨_, hafter⟩
    | token _ hafter => exact ⟨_, hafter⟩
  | failed _ hstep ih =>
    obtain ⟨scanner, hstands⟩ := ih
    obtain ⟨step, hsame, hfollows⟩ := follows_step source hstands
    obtain rfl := Except.ok.inj (hsame.symm.trans hstep)
    cases hfollows with
    | failed _ hafter => exact ⟨_, hafter⟩

/-- A cursor that follows a scanner further on is itself further on. -/
theorem position_lt {next : Scanner} {passed : List Char} (h : Stands bytes cursor scanner)
    (hafter : Stands bytes after next) (hplace : next.place = scanner.place.after passed)
    (hne : passed ≠ []) :
    cursor.position < after.position := by
  have hpos := List.length_pos_iff.mpr (encode_ne_nil hne)
  have hposition := PlaceShift.position_after scanner.place passed
  rw [← hafter.position_eq, hplace, hposition, h.position_eq]
  exact Nat.lt_add_of_pos_right hpos

theorem position_lt_of_token {token : Token} {next : Scanner} (h : Stands bytes cursor scanner)
    (hstep : scanner.step source = .token token next) (hafter : Stands bytes after next) :
    cursor.position < after.position := by
  obtain ⟨gap, taken, hpasses⟩ := passes_of_step hstep
  have hplace : next.place = scanner.place.after (gap ++ taken) := by
    rw [hpasses.after_eq, hpasses.place_eq, Place.after_append]
  exact position_lt h hafter hplace (List.append_ne_nil_of_right_ne_nil _ hpasses.taken_ne)

/-- A run on bytes gives what a run on characters gives. -/
theorem run_of_stands {cursor : Cursor} {scanner : Scanner} (h : Stands bytes cursor scanner)
    (hreached : Reached bytes source cursor) (done : List Token) :
    ∃ after, run bytes source done cursor = .ok ⟨(scanner.run source done).1, after⟩ ∧
      Stands bytes after (scanner.run source done).2 ∧ Reached bytes source after := by
  induction hlength : scanner.rest.length using Nat.strong_induction_on generalizing cursor scanner
    done with
  | _ n ih =>
    subst hlength
    obtain ⟨step, hstep, hfollows⟩ := follows_step source h
    rw [run, hstep]
    cases hfollows with
    | finished hrest =>
      obtain ⟨place, mode, rest⟩ := scanner
      obtain rfl : rest = [] := hrest
      rw [run_of_finished (step_nil place mode)]
      exact ⟨cursor, rfl, h, hreached⟩
    | @gap gap rest after hrest hne hgap hafter =>
      have hsame : scanner.run source done =
          Scanner.run source done ⟨scanner.place.after gap, scanner.mode, rest⟩ := by
        refine run_congr ?_ done
        rw [← step_of_gap hgap, ← hrest]
      have hshorter : rest.length < scanner.rest.length := by
        have hpos := List.length_pos_iff.mpr hne
        rw [hrest, List.length_append]
        omega
      dsimp only
      rw [if_pos ⟨position_lt h hafter rfl hne, hafter.ahead.le⟩, hsame]
      exact ih _ hshorter hafter (.onward hreached hstep) done rfl
    | token htoken hafter =>
      dsimp only
      rw [if_pos ⟨position_lt_of_token h htoken hafter, hafter.ahead.le⟩, run_of_token htoken]
      exact ih _ (Scanner.length_rest_lt_of_step htoken) hafter (.onward hreached hstep) _ rfl
    | failed hfailed hafter =>
      rw [run_of_failed hfailed]
      exact ⟨_, rfl, hafter, .failed hreached hstep⟩

/-! ### Calls -/

/-- A lexer of the bytes of a text that is where a lexer of its characters is. -/
structure Tracks (source : Option SourceId) (text : String) (byteLexer : ByteLexer)
    (lexer : Lexer) : Prop where
  bytes_eq : byteLexer.bytes = Utf8.bytes text
  sources_eq : byteLexer.source = source ∧ lexer.source = source
  tokens_eq : byteLexer.tokens = lexer.tokens
  stands : Stands (Utf8.bytes text) byteLexer.cursor lexer.scanner
  reached : Reached (Utf8.bytes text) source byteLexer.cursor

variable {text : String} {byteLexer : ByteLexer} {lexer : Lexer}

theorem tracks_opened (source : Option SourceId) (text : String) :
    Tracks source text (.opened source text) (BytePlaces.opened source text) :=
  ⟨rfl, ⟨rfl, rfl⟩, rfl, stands_ofText text, .start⟩

theorem tracks_resume (h : Tracks source text byteLexer lexer) :
    ∃ next, byteLexer.resume = .ok (lexer.resume.1, next) ∧
      Tracks source text next lexer.resume.2 := by
  obtain ⟨hbyteSource, hsource⟩ := h.sources_eq
  rw [ByteLexer.resume, h.tokens_eq, h.bytes_eq, hbyteSource]
  cases htokens : lexer.tokens with
  | some tokens =>
    rw [RepeatedCalls.resume_of_tokens htokens]
    exact ⟨byteLexer, rfl, h⟩
  | none =>
    obtain ⟨after, hrun, hstands, hreached⟩ := run_of_stands h.stands h.reached []
    cases hscanner : lexer.scanner.run source [] with
    | mk result scanner =>
      rw [hscanner] at hrun hstands
      rw [RepeatedCalls.resume_of_none htokens (hsource ▸ hscanner)]
      dsimp only
      rw [hrun]
      exact ⟨_, rfl, rfl, ⟨rfl, hsource⟩, rfl, hstands, hreached⟩

theorem tracks_afterCalls (source : Option SourceId) (text : String) (count : Nat) :
    ∃ byteLexer, (ByteLexer.opened source text).afterCalls count = .ok byteLexer ∧
      Tracks source text byteLexer
        (RepeatedCalls.afterCalls (BytePlaces.opened source text) count) := by
  induction count with
  | zero => exact ⟨_, rfl, tracks_opened source text⟩
  | succ count ih =>
    obtain ⟨last, hlast, htracks⟩ := ih
    obtain ⟨next, hnext, hafter⟩ := tracks_resume htracks
    refine ⟨next, ?_, hafter⟩
    rw [ByteLexer.afterCalls, hlast, ok_bind, hnext]
    rfl

/-- However often a lexer of bytes is called, it breaks down in no call and gives what the lexer of
characters gives. Each of its calls begins at a cursor that has been reached; wherever a step is
made, the cursor is within the bytes and in front of a whole character, and the step does not break
down. -/
theorem resume_breaks_nowhere (source : Option SourceId) (text : String) :
    (∀ count, ∃ lexer next, (ByteLexer.opened source text).afterCalls count = .ok lexer ∧
      lexer.resume = .ok ((RepeatedCalls.afterCalls (BytePlaces.opened source text) count).resume.1,
        next) ∧
        Reached (Utf8.bytes text) source lexer.cursor) ∧
      ∀ cursor, Reached (Utf8.bytes text) source cursor →
        cursor.position ≤ (Utf8.bytes text).length ∧
          isBoundary (Utf8.bytes text) cursor.position = true ∧
          ∃ step, ByteScanner.step (Utf8.bytes text) source cursor = .ok step := by
  constructor
  · intro count
    obtain ⟨lexer, hcalls, htracks⟩ := tracks_afterCalls source text count
    obtain ⟨next, hresume, -⟩ := tracks_resume htracks
    exact ⟨lexer, next, hcalls, hresume, htracks.reached⟩
  · intro cursor hreached
    obtain ⟨scanner, hstands⟩ := stands_of_reached hreached
    obtain ⟨step, hstep, -⟩ := follows_step source hstands
    exact ⟨hstands.ahead.le, hstands.ahead.isBoundary, step, hstep⟩

/-- A comment that holds a character of two bytes ends in front of a whole one, and so does the
string that the second call passes over. -/
theorem resume_breaks_nowhere_brokenLines :
    (∃ lexer next, (ByteLexer.opened none BytePlaces.brokenLines).afterCalls 1 = .ok lexer ∧
      lexer.resume = .ok (.error (.unrecognisedCharacter 'é' ⟨18, 3, 2⟩), next)) ∧
      Reached (Utf8.bytes BytePlaces.brokenLines) none ⟨5, 1, 0, .outside⟩ ∧
        isBoundary (Utf8.bytes BytePlaces.brokenLines) 5 = true ∧
          isBoundary (Utf8.bytes BytePlaces.brokenLines) 3 = false := by
  have hsecond :
      (RepeatedCalls.afterCalls (BytePlaces.opened none BytePlaces.brokenLines) 1).resume.1 =
      .error (.unrecognisedCharacter 'é' ⟨18, 3, 2⟩) := by decide +kernel
  have hcomment : ByteScanner.step (Utf8.bytes BytePlaces.brokenLines) none .start =
      .ok (.onward none ⟨5, 1, 0, .outside⟩) := by rfl
  have hreached := Reached.start.onward hcomment
  obtain ⟨hcalls, hwhole⟩ := resume_breaks_nowhere none BytePlaces.brokenLines
  obtain ⟨lexer, next, hlexer, hresume, -⟩ := hcalls 1
  rw [hsecond] at hresume
  exact ⟨⟨lexer, next, hlexer, hresume⟩, hreached, (hwhole _ hreached).2.1, by decide⟩

end ResourceLang.Proofs.WholeCharacters
