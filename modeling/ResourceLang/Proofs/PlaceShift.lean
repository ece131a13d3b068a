import ResourceLang.Proofs.ScannerRun
import ResourceLang.Proofs.Utf8Reading

/-!
Places as counts over the text before them, and scanners that differ in their place only. A scanner
that stands some bytes and lines further on does the same with what lies in front of it: every place
it reports is moved by as much, and nothing else changes.
-/

set_option autoImplicit false
set_option relaxedAutoImplicit false

namespace ResourceLang.Proofs.PlaceShift

open Text Token Token.Scan Utf8Reading ScannerRun

/-! ### Counts -/

theorem position_after (place : Place) (cs : List Char) :
    (place.after cs).position = place.position + (Utf8.encode cs).length := by
  induction cs generalizing place with
  | nil => rfl
  | cons c cs ih =>
    have hnext : (place.next c).position = place.position + c.utf8Size := by
      by_cases hc : c = '\n'
      · subst hc
        rfl
      · rw [Place.next, if_neg hc]
    have hafter : place.after (c :: cs) = (place.next c).after cs := rfl
    rw [hafter, ih, hnext, encode_cons, List.length_append, String.length_utf8EncodeChar,
      Nat.add_assoc]

theorem line_after (place : Place) (cs : List Char) :
    (place.after cs).line = place.line + cs.count '\n' := by
  induction cs generalizing place with
  | nil => rfl
  | cons c cs ih =>
    have hafter : place.after (c :: cs) = (place.next c).after cs := rfl
    rw [hafter, ih, List.count_cons]
    by_cases hc : c = '\n'
    · simp only [Place.next, hc, ↓reduceIte, beq_self_eq_true]
      omega
    · simp [Place.next, hc]

theorem utf8ByteSize_eq_length_encode (text : String) :
    text.utf8ByteSize = (Utf8.encode text.toList).length := by
  rw [Utf8.length_encode, ← utf8ByteSize_ofList, String.ofList_toList]

/-! ### Shifts -/

/-- So many bytes and lines further on, at the same offset in a line. -/
structure Shift where
  bytes : Nat
  lines : Nat

namespace Shift

def place (shift : Shift) (place : Place) : Place :=
  ⟨place.position + shift.bytes, place.line + shift.lines, place.offset⟩

def token (shift : Shift) (token : Token) : Token :=
  ⟨token.lexeme, shift.place token.place, token.source⟩

def error (shift : Shift) : LexError → LexError
  | .unrecognisedCharacter found place => .unrecognisedCharacter found (shift.place place)
  | .unexpectedEnd position => .unexpectedEnd (position + shift.bytes)
  | .malformedResourceId place => .malformedResourceId (shift.place place)
  | .unterminatedString place => .unterminatedString (shift.place place)

def scanner (shift : Shift) (scanner : Scanner) : Scanner :=
  ⟨shift.place scanner.place, scanner.mode, scanner.rest⟩

def step (shift : Shift) : Scanner.Step → Scanner.Step
  | .finished after => .finished (shift.scanner after)
  | .failed error after => .failed (shift.error error) (shift.scanner after)
  | .token token after => .token (shift.token token) (shift.scanner after)

def outcome (shift : Shift) : Except LexError (List Token) → Except LexError (List Token)
  | .ok tokens => .ok (tokens.map shift.token)
  | .error error => .error (shift.error error)

variable (shift : Shift)

theorem next_place (place : Place) (c : Char) :
    (shift.place place).next c = shift.place (place.next c) := by
  by_cases hc : c = '\n'
  · simp only [Place.next, Shift.place, hc, ↓reduceIte, Nat.add_right_comm]
  · simp only [Place.next, Shift.place, hc, ↓reduceIte, Nat.add_right_comm]

theorem after_place (place : Place) (cs : List Char) :
    (shift.place place).after cs = shift.place (place.after cs) := by
  induction cs generalizing place with
  | nil => rfl
  | cons c cs ih =>
    have hnext := ih (place.next c)
    rw [← next_place] at hnext
    exact hnext

theorem skipGap_place (inComment : Bool) (place : Place) (cs : List Char) :
    skipGap inComment (shift.place place) cs =
      (shift.place (skipGap inComment place cs).1, (skipGap inComment place cs).2) := by
  induction cs generalizing inComment place with
  | nil => rfl
  | cons c cs ih =>
    unfold skipGap
    simp only [next_place, ih]
    split_ifs <;> rfl

theorem errorAt_place (place : Place) (cause : Cause) :
    Scanner.errorAt (shift.place place) cause = shift.error (Scanner.errorAt place cause) := by
  cases cause with
  | endOfText => exact congrArg _ (Nat.add_right_comm _ _ _)
  | _ => rfl

theorem step_scanner (source : Option SourceId) (scanner : Scanner) :
    (shift.scanner scanner).step source = shift.step (scanner.step source) := by
  unfold Scanner.step
  simp only [Shift.scanner, skipGap_place, after_place, errorAt_place]
  split
  · rfl
  · split <;> rfl

theorem run_scanner (source : Option SourceId) (done : List Token) (scanner : Scanner) :
    (shift.scanner scanner).run source (done.map shift.token) =
      (shift.outcome (scanner.run source done).1, shift.scanner (scanner.run source done).2) := by
  induction done, scanner using Scanner.run.induct source with
  | case1 done scanner after hstep =>
    rw [run_eq, step_scanner, run_eq, hstep]
    simp only [Shift.step, Shift.outcome, List.map_reverse]
  | case2 done scanner error after hstep =>
    rw [run_eq, step_scanner, run_eq, hstep]
    rfl
  | case3 done scanner token after hstep ih =>
    rw [run_eq, step_scanner, run_eq, hstep]
    exact ih

end Shift

end ResourceLang.Proofs.PlaceShift
