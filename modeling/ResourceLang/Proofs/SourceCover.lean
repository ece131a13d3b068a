import ResourceLang.Proofs.PlaceShift

/-!
The tokens of a text and the gaps between them make up its bytes. Every token begins at its position
and is spelled by the bytes from there to its end, and what lies before the first token, between two
and after the last is blank or a comment.
-/

set_option autoImplicit false
set_option relaxedAutoImplicit false

namespace ResourceLang.Proofs.SourceCover

open Text Token Token.Scan LexemeGrammar SpelledLexemes CutSoundness ScannerRun Utf8Reading
  PlaceShift

/-! ### Bytes of gaps -/

/-- Bytes that stand for no token, given the bytes that follow them: spaces, tabs, carriage
returns, line feeds and comments. A comment is a backtick and the bytes up to the next line feed or
the end. -/
inductive GapBytes : (gap rest : List UInt8) → Prop
  | nil (rest : List UInt8) : GapBytes [] rest
  | blank {b : UInt8} {gap rest : List UInt8} (hb : b ∈ [0x20, 0x09, 0x0D, 0x0A])
      (hgap : GapBytes gap rest) : GapBytes (b :: gap) rest
  | comment {body gap rest : List UInt8} (hbody : 0x0A ∉ body)
      (hend : ∀ b ∈ (gap ++ rest).head?, b = 0x0A) (hgap : GapBytes gap rest) :
    GapBytes (0x60 :: body ++ gap) rest

theorem gapBytes_of_gap {gap rest : List Char} (h : Gap gap rest) :
    GapBytes (Utf8.encode gap) (Utf8.encode rest) := by
  induction h with
  | nil rest => exact .nil _
  | blank hc _ ih =>
    rw [encode_cons]
    rcases eq_of_isBlank hc with rfl | rfl | rfl | rfl <;> exact .blank (by decide) ih
  | @comment body gap rest hbody hend _ ih =>
    have hline : 0x0A ∉ Utf8.encode body := mt (@ascii_mem_encode '\n' (by decide) body).mp hbody
    rw [Utf8.encode_append]
    refine @GapBytes.comment (Utf8.encode body) (Utf8.encode gap) (Utf8.encode rest) hline ?_ ih
    rw [← Utf8.encode_append]
    intro b hb
    cases hcs : gap ++ rest with
    | nil =>
      rw [hcs] at hb
      cases hb
    | cons c cs =>
      rw [hcs] at hend hb
      obtain rfl := hend c rfl
      exact (Option.some.inj hb).symm

/-! ### Spans -/

/-- The bytes from the position of `token` up to `stop` spell it. -/
structure Span (bytes : List UInt8) (token : Token) (stop : Nat) : Prop where
  nonempty : token.place.position < stop
  lexical : Lexical token.lexeme
  spelled : ∃ taken, Spells token.lexeme taken ∧
    bytes.extract token.place.position stop = Utf8.encode taken

/-- Ends for the tokens of a source, from the byte `start` of it on: each token is spelled by the
bytes between its position and its end, and the bytes outside of these are gaps. -/
structure Cover (bytes : List UInt8) (start : Nat) (tokens : List Token) (ends : List Nat) :
    Prop where
  length_eq : ends.length = tokens.length
  spans : ∀ span ∈ tokens.zip ends, Span bytes span.1 span.2
  gaps : ∀ gap ∈ (start :: ends).zip (tokens.map (·.place.position) ++ [bytes.length]),
    gap.1 ≤ gap.2 ∧ GapBytes (bytes.extract gap.1 gap.2) (bytes.drop gap.2)

theorem cover_nil {bytes : List UInt8} {start : Nat} (hstart : start ≤ bytes.length)
    (hgap : GapBytes (bytes.drop start) []) : Cover bytes start [] [] := by
  refine ⟨rfl, by simp, ?_⟩
  simp only [List.map_nil, List.nil_append, List.zip_cons_cons, List.zip_nil_left,
    List.mem_singleton, forall_eq]
  rw [List.extract_eq_take_drop, List.take_of_length_le (by simp), List.drop_length]
  exact ⟨hstart, hgap⟩

theorem cover_cons {bytes : List UInt8} {start stop : Nat} {token : Token} {tokens : List Token}
    {ends : List Nat} (hstart : start ≤ token.place.position)
    (hgap : GapBytes (bytes.extract start token.place.position) (bytes.drop token.place.position))
    (hspan : Span bytes token stop) (h : Cover bytes stop tokens ends) :
    Cover bytes start (token :: tokens) (stop :: ends) := by
  refine ⟨congrArg Nat.succ h.length_eq, ?_, ?_⟩
  · rw [List.zip_cons_cons, List.forall_mem_cons]
    exact ⟨hspan, h.spans⟩
  · rw [List.map_cons, List.cons_append, List.zip_cons_cons, List.forall_mem_cons]
    exact ⟨⟨hstart, hgap⟩, h.gaps⟩

/-! ### Runs -/

theorem extract_append (before mid rest : List UInt8) :
    (before ++ mid ++ rest).extract before.length (before ++ mid).length = mid := by
  rw [List.extract_eq_take_drop, List.append_assoc, List.drop_left, List.length_append,
    Nat.add_sub_cancel_left, List.take_left]

section Passes

variable {scanner after : Scanner} {token : Token} {gap taken : List Char} {before : List UInt8}

theorem positions_of_passes (h : Passes scanner token after gap taken)
    (hbefore : before.length = scanner.place.position) :
    (before ++ Utf8.encode gap).length = token.place.position ∧
      (before ++ Utf8.encode gap ++ Utf8.encode taken).length = after.place.position := by
  have hplace : (before ++ Utf8.encode gap).length = token.place.position := by
    rw [h.place_eq, position_after, List.length_append, hbefore]
  refine ⟨hplace, ?_⟩
  rw [h.after_eq, position_after, List.length_append, hplace]

theorem bytes_of_passes (h : Passes scanner token after gap taken) (before : List UInt8) :
    before ++ Utf8.encode scanner.rest =
      before ++ Utf8.encode gap ++ Utf8.encode taken ++ Utf8.encode after.rest := by
  rw [h.rest_eq, Utf8.encode_append, Utf8.encode_append, List.append_assoc, List.append_assoc]

/-- The bytes up to the token that a step gives are a gap. -/
theorem gapBytes_of_passes (h : Passes scanner token after gap taken)
    (hbefore : before.length = scanner.place.position) :
    GapBytes
      ((before ++ Utf8.encode scanner.rest).extract scanner.place.position token.place.position)
      ((before ++ Utf8.encode scanner.rest).drop token.place.position) := by
  rw [← (positions_of_passes h hbefore).1, ← hbefore, bytes_of_passes h, List.append_assoc,
    extract_append, List.drop_left, ← Utf8.encode_append]
  exact gapBytes_of_gap h.isGap

/-- The bytes that a step takes after the gap spell the token it gives. -/
theorem span_of_passes (h : Passes scanner token after gap taken)
    (hbefore : before.length = scanner.place.position) :
    Span (before ++ Utf8.encode scanner.rest) token after.place.position := by
  obtain ⟨hplace, hafter⟩ := positions_of_passes h hbefore
  refine ⟨?_, h.sound.lexical, taken, h.sound.spells, ?_⟩
  · have hpos := List.length_pos_iff.mpr (encode_ne_nil h.taken_ne)
    rw [← hafter, List.length_append, hplace]
    exact Nat.lt_add_of_pos_right hpos
  · rw [← hplace, ← hafter, bytes_of_passes h, extract_append]

end Passes

/-- A run that begins after the bytes `before` covers the bytes from there on. -/
theorem cover_of_run {source : Option SourceId} (before : List UInt8) {tokens done : List Token}
    {scanner after : Scanner} (h : scanner.run source done = (.ok tokens, after))
    (hbefore : before.length = scanner.place.position) :
    ∃ later ends, tokens = done.reverse ++ later ∧
      Cover (before ++ Utf8.encode scanner.rest) scanner.place.position later ends := by
  -- Induction on the run; the bytes before the scanner grow by what the step passes over.
  induction done, scanner using Scanner.run.induct source generalizing before with
  | case1 done scanner last hstep =>
    rw [run_of_finished hstep] at h
    cases h
    refine ⟨[], [], (List.append_nil _).symm, cover_nil ?_ ?_⟩
    · rw [← hbefore, List.length_append]
      exact Nat.le_add_right _ _
    · rw [← hbefore, List.drop_left]
      exact gapBytes_of_gap (gap_of_finished hstep)
  | case2 done scanner error last hstep =>
    rw [run_eq, hstep] at h
    cases h
  | case3 done scanner token next hstep ih =>
    rw [run_of_token hstep] at h
    obtain ⟨gap, taken, hpasses⟩ := passes_of_step hstep
    obtain ⟨hplace, hnext⟩ := positions_of_passes hpasses hbefore
    obtain ⟨later, ends, htokens, hcover⟩ :=
      ih (before ++ Utf8.encode gap ++ Utf8.encode taken) h hnext
    rw [← bytes_of_passes hpasses] at hcover
    refine ⟨token :: later, next.place.position :: ends, ?_, ?_⟩
    · rw [htokens, List.reverse_cons, List.append_assoc]
      rfl
    · refine cover_cons ?_ (gapBytes_of_passes hpasses hbefore) (span_of_passes hpasses hbefore)
        hcover
      rw [hpasses.place_eq, position_after]
      exact Nat.le_add_right _ _

/-- Nothing of a text is lost or made up when it is cut into tokens. -/
theorem cover_of_tokenize {text : String} {tokens : List Token} (h : tokenize text = .ok tokens) :
    ∃ ends, Cover (Utf8.bytes text) 0 tokens ends := by
  rw [tokenize_eq] at h
  obtain ⟨later, ends, hlater, hcover⟩ := cover_of_run [] (Prod.ext h rfl) rfl
  exact ⟨ends, hlater ▸ hcover⟩

/-- A text with two comments, a literal with a capital `X`, and a string that runs over a line end
and holds a character of two bytes. -/
def annotated : String := "a\x60 \"\r\n\t0XfF \"é\n\"#b.-1\x60 end"

def annotatedTokens : List Token :=
  [⟨.plain .identifier "a", ⟨0, 1, 0⟩, none⟩, ⟨.plain .integer "0xfF", ⟨7, 2, 1⟩, none⟩,
    ⟨.plain .string "é\n", ⟨12, 2, 6⟩, none⟩, ⟨.dotted .resourceId ["b", "-1"], ⟨17, 3, 1⟩, none⟩]

theorem cover_of_tokenize_annotated : tokenize annotated = .ok annotatedTokens ∧
    ∃ ends, Cover (Utf8.bytes annotated) 0 annotatedTokens ends := by
  have h : tokenize annotated = .ok annotatedTokens := by decide +kernel
  exact ⟨h, cover_of_tokenize h⟩

end ResourceLang.Proofs.SourceCover
