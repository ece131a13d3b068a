import Mathlib.Data.List.DropRight
import ResourceLang.Proofs.RepeatedCalls
import ResourceLang.Proofs.ScannerPath

/-!
The lines and offsets that a lexer reports, as counts over the bytes of its text. The line of a
token or of an error is one more than the line feeds before it, and its offset is counted from
behind the last of them, in whichever call it is reported.
-/

set_option autoImplicit false
set_option relaxedAutoImplicit false

namespace ResourceLang.Proofs.BytePlaces

open Text Token Token.Scan Utf8Reading ScannerRun PlaceShift RepeatedCalls ScannerPath

/-! ### Places as counts -/

/-- Where the line of a position begins: behind the last line feed before it, or at the start of the
text. -/
def lineStart (bytes : List UInt8) (position : Nat) : Nat :=
  ((bytes.take position).rdropWhile (· ≠ 0x0A)).length

/-- The place of a position, counted out over the bytes before it. -/
def placeAt (bytes : List UInt8) (position : Nat) : Place where
  position := position
  line := 1 + (bytes.take position).count 0x0A
  offset := position - lineStart bytes position

/-- The place of some position of the bytes. -/
def Located (bytes : List UInt8) (place : Place) : Prop :=
  place.position ≤ bytes.length ∧ place = placeAt bytes place.position

theorem rdropWhile_append_of_pos {p : UInt8 → Bool} (front : List UInt8) {run : List UInt8}
    (hrun : ∀ b ∈ run, p b = true) : (front ++ run).rdropWhile p = front.rdropWhile p := by
  unfold List.rdropWhile
  rw [List.reverse_append, List.dropWhile_append_of_pos fun b hb ↦ hrun b (List.mem_reverse.mp hb)]

theorem lineFeed_not_mem {c : Char} (hc : c ≠ '\n') : 0x0A ∉ String.utf8EncodeChar c :=
  mt (@ascii_mem_utf8EncodeChar c '\n' (by decide)).mp hc

theorem encode_concat (cs : List Char) (c : Char) :
    Utf8.encode (cs ++ [c]) = Utf8.encode cs ++ String.utf8EncodeChar c := by
  rw [Utf8.encode_append, encode_cons]
  exact congrArg _ (List.append_nil _)

theorem count_encode (cs : List Char) : (Utf8.encode cs).count 0x0A = cs.count '\n' := by
  induction cs with
  | nil => rfl
  | cons c cs ih =>
    rw [encode_cons, List.count_append, ih, List.count_cons, Nat.add_comm]
    by_cases hc : c = '\n'
    · subst hc
      rfl
    · rw [List.count_eq_zero.mpr (lineFeed_not_mem hc), if_neg (by simpa using hc)]

/-- The bytes of the last line are those that the offset counts. -/
theorem offset_after (cs : List Char) :
    (Place.start.after cs).offset + ((Utf8.encode cs).rdropWhile (· ≠ 0x0A)).length =
      (Utf8.encode cs).length := by
  induction cs using List.reverseRecOn with
  | nil => rfl
  | append_singleton cs c ih =>
    have hnext : Place.start.after (cs ++ [c]) = (Place.start.after cs).next c :=
      Place.after_append .start cs [c]
    rw [hnext, encode_concat]
    by_cases hc : c = '\n'
    · subst hc
      have hline : String.utf8EncodeChar '\n' = [0x0A] := rfl
      rw [hline, List.rdropWhile_concat_neg _ _ _ (by decide)]
      exact Nat.zero_add _
    · have hrun : ∀ b ∈ String.utf8EncodeChar c, decide (b ≠ 0x0A) = true := by
        intro b hb
        rw [decide_eq_true_eq]
        rintro rfl
        exact lineFeed_not_mem hc hb
      rw [rdropWhile_append_of_pos _ hrun, Place.next, if_neg hc, List.length_append,
        String.length_utf8EncodeChar, ← ih]
      exact Nat.add_right_comm _ _ _

/-- A place behind some part of a text is counted out over the bytes of that part. -/
theorem located_of_placeIn {text : List Char} {place : Place} (h : PlaceIn text place) :
    Located (Utf8.encode text) place := by
  obtain ⟨before, ⟨rest, rfl⟩, rfl⟩ := h
  have hposition : (Place.start.after before).position = (Utf8.encode before).length := by
    rw [position_after]
    exact Nat.zero_add _
  have htake : (Utf8.encode (before ++ rest)).take (Place.start.after before).position =
      Utf8.encode before := by
    rw [hposition, Utf8.encode_append, List.take_left]
  have hline : (Place.start.after before).line = 1 + (Utf8.encode before).count 0x0A := by
    rw [line_after, count_encode]
    rfl
  have hoffset : (Place.start.after before).offset = (Place.start.after before).position -
      ((Utf8.encode before).rdropWhile (· ≠ 0x0A)).length := by
    rw [hposition, ← offset_after, Nat.add_sub_cancel]
  constructor
  · rw [hposition, Utf8.encode_append, List.length_append]
    exact Nat.le_add_right _ _
  · rw [placeAt, lineStart, htake, ← hline, ← hoffset]

/-! ### Calls -/

/-- A lexer that has not been called yet. -/
def opened (source : Option SourceId) (text : String) : Lexer := ⟨text, source, .ofText text, none⟩

theorem ofText_eq_opened (text : String) : Lexer.ofText text = opened none text := rfl

theorem ofFile?_eq_opened (map : Sources) (id : SourceId) :
    Lexer.ofFile? map id = (map.get? id).map fun file ↦ opened (some id) file.text := rfl

/-- The place of an error. The end of the text has none but its position. -/
def place? : LexError → Option Place
  | .unrecognisedCharacter _ place => some place
  | .malformedResourceId place => some place
  | .unterminatedString place => some place
  | .unexpectedEnd _ => none

/-- Whether all that a call reports stands in the text. -/
def Reported (text : List Char) : Except LexError (List Token) → Prop
  | .ok tokens => ∀ token ∈ tokens, PlaceIn text token.place
  | .error error => ∀ place, place? error = some place → PlaceIn text place

theorem place?_errorAt {place other : Place} {cause : Cause}
    (h : place? (Scanner.errorAt place cause) = some other) : other = place := by
  cases cause with
  | endOfText => cases h
  | _ => exact (Option.some.inj h).symm

theorem reported_run {text : List Char} {source : Option SourceId} {scanner after : Scanner}
    {result : Except LexError (List Token)} (hstands : StandsIn text scanner)
    (h : scanner.run source [] = (result, after)) : Reported text result ∧ StandsIn text after := by
  cases result with
  | ok tokens =>
    obtain ⟨later, last, hlater, hpath, hlast⟩ := path_of_run_ok h
    obtain rfl : tokens = later := hlater
    obtain ⟨htokens, hend⟩ := hstands.path hpath
    exact ⟨htokens, hend.finished hlast⟩
  | error error =>
    obtain ⟨tokens, last, hpath, hlast⟩ := path_of_run_error h
    obtain ⟨⟨place, cause, hplace, rfl⟩, hafter⟩ := (hstands.path hpath).2.failed hlast
    refine ⟨fun other hother ↦ ?_, hafter⟩
    rw [place?_errorAt hother]
    exact hplace

/-- What every call keeps: the scanner stands in the text, and so do the tokens that are held. -/
structure Upright (lexer : Lexer) : Prop where
  scanner : StandsIn lexer.text.toList lexer.scanner
  tokens : ∀ tokens, lexer.tokens = some tokens → Reported lexer.text.toList (.ok tokens)

theorem upright_resume {lexer : Lexer} (h : Upright lexer) :
    Reported lexer.text.toList lexer.resume.1 ∧ lexer.resume.2.text = lexer.text ∧
      Upright lexer.resume.2 := by
  cases htokens : lexer.tokens with
  | some tokens =>
    rw [resume_of_tokens htokens]
    exact ⟨h.tokens tokens htokens, rfl, h⟩
  | none =>
    cases hrun : lexer.scanner.run lexer.source [] with
    | mk result scanner =>
      obtain ⟨hreported, hafter⟩ := reported_run h.scanner hrun
      rw [resume_of_none htokens hrun]
      refine ⟨hreported, rfl, hafter, fun tokens hkept ↦ ?_⟩
      cases result with
      | error error => cases hkept
      | ok read =>
        obtain rfl : read = tokens := Option.some.inj hkept
        exact hreported

theorem upright_afterCalls {lexer : Lexer} (h : Upright lexer) (count : Nat) :
    (afterCalls lexer count).text = lexer.text ∧ Upright (afterCalls lexer count) := by
  induction count with
  | zero => exact ⟨rfl, h⟩
  | succ count ih =>
    obtain ⟨_, htext, hafter⟩ := upright_resume ih.2
    exact ⟨htext.trans ih.1, hafter⟩

theorem upright_opened (source : Option SourceId) (text : String) :
    Upright (opened source text) := by
  refine ⟨standsIn_ofText text, fun tokens hnone ↦ ?_⟩
  cases hnone

/-- In every call of a lexer, the first or a later one, each token and each error that has a place
stands at the line and the offset that its position has in the bytes of the text. -/
theorem located_of_resume (source : Option SourceId) (text : String) (count : Nat) :
    match (afterCalls (opened source text) count).resume.1 with
    | .ok tokens => ∀ token ∈ tokens, Located (Utf8.bytes text) token.place
    | .error error => ∀ place, place? error = some place → Located (Utf8.bytes text) place := by
  obtain ⟨htext, hupright⟩ := upright_afterCalls (upright_opened source text) count
  have hreported := (upright_resume hupright).1
  rw [htext] at hreported
  cases hresult : (afterCalls (opened source text) count).resume.1 with
  | ok tokens =>
    rw [hresult] at hreported
    exact fun token htoken ↦ located_of_placeIn (hreported token htoken)
  | error error =>
    rw [hresult] at hreported
    exact fun place hplace ↦ located_of_placeIn (hreported place hplace)

/-- A text whose first call stops in the middle of a resource id, and whose second one passes over a
string of two lines and stops behind it. -/
def brokenLines : String := "\x60 é\r\n #b.x \"é\n\" é"

theorem located_of_resume_brokenLines :
    (afterCalls (opened none brokenLines) 0).resume.1 = .error (.malformedResourceId ⟨7, 2, 1⟩) ∧
      (afterCalls (opened none brokenLines) 1).resume.1 =
        .error (.unrecognisedCharacter 'é' ⟨18, 3, 2⟩) ∧
      Located (Utf8.bytes brokenLines) ⟨7, 2, 1⟩ ∧ Located (Utf8.bytes brokenLines) ⟨18, 3, 2⟩ := by
  have hfirst : (afterCalls (opened none brokenLines) 0).resume.1 =
      .error (.malformedResourceId ⟨7, 2, 1⟩) := by decide +kernel
  have hsecond : (afterCalls (opened none brokenLines) 1).resume.1 =
      .error (.unrecognisedCharacter 'é' ⟨18, 3, 2⟩) := by decide +kernel
  have hmalformed := located_of_resume none brokenLines 0
  have hunrecognised := located_of_resume none brokenLines 1
  rw [hfirst] at hmalformed
  rw [hsecond] at hunrecognised
  exact ⟨hfirst, hsecond, hmalformed _ rfl, hunrecognised _ rfl⟩

end ResourceLang.Proofs.BytePlaces
