import ResourceLang.Diagnostic
import ResourceLang.Proofs.BytePlaces
import ResourceLang.Proofs.FirstOffence

/-!
Where a diagnostic says that a text is wrong. A lexical error that has a place is reported at that
place, with the line and the offset that its position has in the bytes of the text. Only the end of
the text is reported at no place: the position is right, it is the number of bytes in the text, but
the line and the offset are zero, and lines count from one.
-/

set_option autoImplicit false
set_option relaxedAutoImplicit false

namespace ResourceLang.Proofs.ErrorPlaces

open Text Token Token.Scan PlaceShift RepeatedCalls ScannerPath BytePlaces FirstOffence

/-- The path of the file of a source, while the map holds it. -/
def path? (map : Sources) (source : Option SourceId) : Option String :=
  (source.bind map.get?).map SourceText.path

/-- How an error at a line and an offset reads: the path comes first where there is one. -/
def reads (path : Option String) (line offset : Nat) (message : String) : String :=
  match path with
  | some path => s!"{path}:{line}:{offset}: error: {message}"
  | none => s!"{line}:{offset}: error: {message}"

/-- The diagnostic carries a token at the place that the position of the error has in the bytes of
the text, and is printed with the line and the offset of that place. -/
structure PointsAt (map : Sources) (source : Option SourceId) (bytes : List UInt8)
    (error : LexError) (diagnostic : Diagnostic) : Prop where
  token : ∃ token, diagnostic.token? = some token ∧ token.place = placeAt bytes error.position
  render : diagnostic.render map = reads (path? map source) (placeAt bytes error.position).line
    (placeAt bytes error.position).offset error.message

variable {error : LexError}

/-! ### Diagnostics -/

theorem render_ofLexError (map : Sources) (source : Option SourceId) (error : LexError) :
    (Diagnostic.ofLexError error source).render map =
      reads (path? map source) (Diagnostic.placeOf error).line (Diagnostic.placeOf error).offset
        error.message := by
  have hrender : (Diagnostic.ofLexError error source).render map =
      map.describe source (Diagnostic.placeOf error) ++ ": " ++ ("error: " ++ error.message) := rfl
  have hmark : ": " ++ ("error: " ++ error.message) = ": error: " ++ error.message := by
    rw [← String.append_assoc]
    rfl
  rw [hrender, Sources.describe, path?]
  cases source.bind map.get? with
  | none => simp [reads, toString, String.append_assoc, hmark]
  | some file => simp [reads, toString, String.append_assoc, hmark]

/-- A diagnostic points at the error exactly if the place it has for it is the one of its
position. -/
theorem pointsAt_ofLexError_iff (map : Sources) (source : Option SourceId) (bytes : List UInt8)
    (error : LexError) :
    PointsAt map source bytes error (.ofLexError error source) ↔
      Diagnostic.placeOf error = placeAt bytes error.position := by
  constructor
  · rintro ⟨⟨token, htoken, hplace⟩, _⟩
    obtain rfl := Option.some.inj htoken
    exact hplace
  · intro hplace
    exact ⟨⟨_, rfl, hplace⟩, by rw [render_ofLexError, hplace]⟩

theorem position_placeOf (error : LexError) :
    (Diagnostic.placeOf error).position = error.position := by
  cases error <;> rfl

theorem place?_eq_some (h : ∀ position, error ≠ .unexpectedEnd position) :
    place? error = some (Diagnostic.placeOf error) := by
  cases error with
  | unexpectedEnd position => exact absurd rfl (h position)
  | _ => rfl

/-- No position has the line that the end of a text is reported at. -/
theorem placeOf_unexpectedEnd_ne (bytes : List UInt8) (position : Nat) :
    Diagnostic.placeOf (.unexpectedEnd position) ≠ placeAt bytes position := by
  intro hsame
  have hline : 0 = 1 + (bytes.take position).count 0x0A := congrArg Place.line hsame
  omega

/-! ### The end of a text -/

/-- Only the last character of a text can want more than there is, and it takes one byte. -/
theorem position_of_unexpectedEnd {text : List Char} {source : Option SourceId}
    {scanner after : Scanner} {position : Nat} (hstands : StandsIn text scanner)
    (h : scanner.run source [] = (.error (.unexpectedEnd position), after)) :
    position = (Utf8.encode text).length := by
  obtain ⟨tokens, last, hpath, hstep⟩ := path_of_run_error h
  obtain ⟨before, htext, hplace⟩ := (hstands.path hpath).2
  obtain ⟨gap, c, cs, hrest, -, cause, herror, hexplains⟩ := refuses_of_step hstep
  obtain rfl : .endOfText = cause := (congrArg causeOf herror).trans (causeOf_errorAt _ _)
  obtain ⟨rfl, hc⟩ := hexplains
  have hbyte : (Utf8.encode [c]).length = 1 := by
    rcases hc with rfl | ⟨rfl, -⟩ <;> rfl
  have hposition : position = (last.place.after gap).position + 1 :=
    LexError.unexpectedEnd.inj herror
  rw [hposition, htext, hrest, ← List.append_assoc, Utf8.encode_append, List.length_append, hbyte,
    hplace, ← Place.after_append, position_after]
  exact congrArg (· + 1) (Nat.zero_add _)

/-- What a call reports of the end of the text. -/
theorem position_of_resume {source : Option SourceId} {text : String} {count position : Nat}
    (h : (afterCalls (opened source text) count).resume.1 = .error (.unexpectedEnd position)) :
    position = (Utf8.bytes text).length := by
  obtain ⟨htext, hupright⟩ := upright_afterCalls (upright_opened source text) count
  generalize afterCalls (opened source text) count = lexer at h htext hupright
  have hstands := hupright.scanner
  rw [htext] at hstands
  cases htokens : lexer.tokens with
  | some tokens =>
    rw [resume_of_tokens htokens] at h
    cases h
  | none =>
    cases hrun : lexer.scanner.run lexer.source [] with
    | mk result scanner =>
      rw [resume_of_none htokens hrun] at h
      obtain rfl : result = .error (.unexpectedEnd position) := h
      exact position_of_unexpectedEnd hstands hrun

/-- The place of an error that has one is the place of its position. -/
theorem placeOf_of_resume {source : Option SourceId} {text : String} {count : Nat}
    (h : (afterCalls (opened source text) count).resume.1 = .error error)
    (hplace : ∀ position, error ≠ .unexpectedEnd position) :
    Located (Utf8.bytes text) (Diagnostic.placeOf error) := by
  obtain ⟨htext, hupright⟩ := upright_afterCalls (upright_opened source text) count
  have hreported := (upright_resume hupright).1
  rw [htext, h] at hreported
  exact located_of_placeIn (hreported _ (place?_eq_some hplace))

/-- In every call of a lexer, the first or a later one, the position of an error lies in the text,
and the diagnostic of the error points at its place unless the text ended too early. Then it has the
right position with line and offset zero, whether a file is named or not. -/
theorem pointsAt_iff_ne_unexpectedEnd {source : Option SourceId} {text : String} {count : Nat}
    (h : (afterCalls (opened source text) count).resume.1 = .error error) (map : Sources)
    (file : Option SourceId) :
    error.position ≤ (Utf8.bytes text).length ∧
    (PointsAt map file (Utf8.bytes text) error (.ofLexError error file) ↔
      ∀ position, error ≠ .unexpectedEnd position) ∧
    (∀ position, error = .unexpectedEnd position → position = (Utf8.bytes text).length ∧
      (∃ token, (Diagnostic.ofLexError error file).token? = some token ∧
        token.place = ⟨position, 0, 0⟩) ∧
      (Diagnostic.ofLexError error file).render map =
        reads (path? map file) 0 0 error.message) := by
  refine ⟨?_, ?_, ?_⟩
  · by_cases hend : ∃ position, error = .unexpectedEnd position
    · obtain ⟨position, rfl⟩ := hend
      exact (position_of_resume h).le
    · rw [← position_placeOf]
      exact (placeOf_of_resume h (not_exists.mp hend)).1
  · rw [pointsAt_ofLexError_iff]
    constructor
    · rintro hplace position rfl
      exact placeOf_unexpectedEnd_ne _ _ hplace
    · intro hend
      have hlocated := (placeOf_of_resume h hend).2
      rwa [position_placeOf] at hlocated
  · rintro position rfl
    exact ⟨position_of_resume h, ⟨_, rfl, rfl⟩, render_ofLexError map file _⟩

/-- A map of one file. -/
def filed (text : String) : Sources := (Sources.empty.insert "ship.kdl" text).2

/-- An error behind a string that runs over a line end and holds a character of two bytes. -/
theorem pointsAt_iff_ne_unexpectedEnd_question :
    (afterCalls (opened (some ⟨0⟩) "\"é\n\" ?") 0).resume.1 =
      .error (.unrecognisedCharacter '?' ⟨6, 2, 2⟩) ∧
      PointsAt (filed "\"é\n\" ?") (some ⟨0⟩) (Utf8.bytes "\"é\n\" ?")
        (.unrecognisedCharacter '?' ⟨6, 2, 2⟩)
        (.ofLexError (.unrecognisedCharacter '?' ⟨6, 2, 2⟩) (some ⟨0⟩)) := by
  have h : (afterCalls (opened (some ⟨0⟩) "\"é\n\" ?") 0).resume.1 =
      .error (.unrecognisedCharacter '?' ⟨6, 2, 2⟩) := by decide +kernel
  refine ⟨h, (pointsAt_iff_ne_unexpectedEnd h _ _).2.1.mpr ?_⟩
  rintro position ⟨⟩

/-- A mark at the end of the second line wants more, and the error is reported in line zero. -/
theorem not_pointsAt_end :
    (Lexer.ofText "a\n#").resume.1 = .error (.unexpectedEnd 3) ∧
      placeAt (Utf8.bytes "a\n#") 3 = ⟨3, 2, 1⟩ ∧
      (Diagnostic.ofLexError (.unexpectedEnd 3) (some ⟨0⟩)).render (filed "a\n#") =
        "ship.kdl:0:0: error: unexpected end of input at byte 3" ∧
      ¬ PointsAt (filed "a\n#") (some ⟨0⟩) (Utf8.bytes "a\n#") (.unexpectedEnd 3)
        (.ofLexError (.unexpectedEnd 3) (some ⟨0⟩)) := by
  refine ⟨by decide +kernel, by decide +kernel, ?_, ?_⟩
  · rw [render_ofLexError]
    rfl
  · rw [pointsAt_ofLexError_iff]
    exact placeOf_unexpectedEnd_ne _ _

end ResourceLang.Proofs.ErrorPlaces
