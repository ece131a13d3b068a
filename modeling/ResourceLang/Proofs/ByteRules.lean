import ResourceLang.Proofs.ByteReading
import ResourceLang.Proofs.BytePlaces
import ResourceLang.Proofs.CutRules

/-!
The rules of a scanner of bytes, held to those by which characters are cut. Where a cursor stands at
the place of a scanner of characters, each rule gives the token that is cut off there, or the error,
and leaves the cursor at the place where the other scanner goes on. No operation breaks down on the
way.
-/

set_option autoImplicit false
set_option relaxedAutoImplicit false

namespace ResourceLang.Proofs.ByteRules

open Text Token Token.Scan CutRules CutSoundness SpelledLexemes Utf8Reading PlaceShift ByteScanner
  ByteReading

variable {bytes : List UInt8} {cursor after : Cursor} {place : Place} {mode next : Mode}
  {c : Char} {cs taken rest : List Char} {p : Char → Bool}

/-! ### Cursors and places -/

/-- A cursor counts lines and their beginnings as a place does. -/
structure Counts (cursor : Cursor) (place : Place) : Prop where
  line_eq : place.line = cursor.line
  offset_add : cursor.lineStart + place.offset = place.position

/-- A cursor stands where a scanner of characters does, with the same characters ahead. -/
structure Stands (bytes : List UInt8) (cursor : Cursor) (scanner : Scanner) : Prop where
  ahead : Ahead bytes cursor.position scanner.rest
  position_eq : scanner.place.position = cursor.position
  counts : Counts cursor scanner.place
  mode_eq : scanner.mode = cursor.mode

theorem stands_ofText (text : String) : Stands (Utf8.bytes text) .start (.ofText text) :=
  ⟨ahead_bytes text, rfl, ⟨rfl, rfl⟩, rfl⟩

theorem Counts.next_of_ne (h : Counts cursor place) (hc : c ≠ '\n') :
    Counts cursor (place.next c) := by
  rw [Place.next, if_neg hc]
  exact ⟨h.line_eq, by rw [← h.offset_add, Nat.add_assoc]⟩

theorem Counts.after_of_line (h : Counts cursor place) (hline : '\n' ∉ taken) :
    Counts cursor (place.after taken) := by
  induction taken generalizing place with
  | nil => exact h
  | cons c taken ih =>
      exact ih (h.next_of_ne (List.ne_of_not_mem_cons hline).symm)
        (List.not_mem_of_not_mem_cons hline)

theorem newlinesIn_append {line : List UInt8} (hline : 0x0A ∉ line) (index : Nat)
    (bs : List UInt8) :
    cursor.newlinesIn index (line ++ bs) = cursor.newlinesIn (index + line.length) bs := by
  induction line generalizing index with
  | nil => rfl
  | cons b line ih =>
    rw [List.cons_append, Cursor.newlinesIn, if_neg (List.ne_of_not_mem_cons hline).symm,
      ih (List.not_mem_of_not_mem_cons hline), List.length_cons, Nat.add_assoc, Nat.add_comm 1]

theorem Counts.newlinesIn (h : Counts cursor place) (body : List Char) :
    Counts (cursor.newlinesIn place.position (Utf8.encode body)) (place.after body) := by
  induction body generalizing cursor place with
  | nil => exact h
  | cons c body ih =>
    rw [encode_cons]
    by_cases hc : c = '\n'
    · subst hc
      have hline : Counts (cursor.newlineAt place.position) (place.next '\n') :=
        ⟨congrArg (· + 1) h.line_eq, rfl⟩
      exact ih hline
    · have hposition : place.position + (String.utf8EncodeChar c).length =
          (place.next c).position := by
        rw [Place.next, if_neg hc, String.length_utf8EncodeChar]
      rw [newlinesIn_append (BytePlaces.lineFeed_not_mem hc), hposition]
      exact ih (h.next_of_ne hc)

theorem mode_newlinesIn (index : Nat) (bs : List UInt8) :
    (cursor.newlinesIn index bs).mode = cursor.mode := by
  induction bs generalizing cursor index with
  | nil => rfl
  | cons b bs ih =>
    rw [Cursor.newlinesIn, ih]
    split_ifs <;> rfl

namespace Stands

theorem place_eq (h : Stands bytes cursor ⟨place, mode, cs⟩) : cursor.place = place := by
  have hoffset : cursor.position - cursor.lineStart = place.offset := by
    rw [← h.position_eq, ← h.counts.offset_add, Nat.add_sub_cancel_left]
  rw [Cursor.place, hoffset, ← h.position_eq, ← h.counts.line_eq]

theorem withMode (h : Stands bytes cursor ⟨place, mode, cs⟩) (next : Mode) :
    Stands bytes ⟨cursor.position, cursor.line, cursor.lineStart, next⟩ ⟨place, next, cs⟩ :=
  ⟨h.ahead, h.position_eq, ⟨h.counts.line_eq, h.counts.offset_add⟩, rfl⟩

/-- A cursor that is set in front of whole characters stands there. -/
theorem of_moveTo {position : Nat} (hahead : Ahead bytes position rest)
    (hposition : place.position = position) (hcounts : Counts cursor place)
    (hmode : mode = cursor.mode) :
    ∃ after, moveTo bytes cursor position = .ok after ∧ Stands bytes after ⟨place, mode, rest⟩ :=
  ⟨_, hahead.moveTo cursor, hahead, hposition, ⟨hcounts.line_eq, hcounts.offset_add⟩, hmode⟩

theorem position_after (h : Stands bytes cursor ⟨place, mode, cs⟩) (taken : List Char) :
    (place.after taken).position = cursor.position + (Utf8.encode taken).length := by
  rw [PlaceShift.position_after, ← h.position_eq]

/-- A cursor is moved over characters of its line. -/
theorem moveTo (h : Stands bytes cursor ⟨place, mode, taken ++ rest⟩) (hline : '\n' ∉ taken)
    {count : Nat} (hcount : (Utf8.encode taken).length = count) :
    ∃ after, moveTo bytes cursor (cursor.position + count) = .ok after ∧
      Stands bytes after ⟨place.after taken, mode, rest⟩ := by
  subst hcount
  exact of_moveTo h.ahead.onward (h.position_after taken) (h.counts.after_of_line hline) h.mode_eq

theorem slice (h : Stands bytes cursor ⟨place, mode, taken ++ rest⟩)
    (hafter : Stands bytes after ⟨place.after taken, next, rest⟩) :
    slice bytes cursor.position after.position = .ok (String.ofList taken) := by
  rw [← hafter.position_eq, h.position_after]
  exact h.ahead.slice

theorem consumeWhile (h : Stands bytes cursor ⟨place, mode, cs⟩) (hp : Uniform p)
    (hline : p '\n' = false) :
    ∃ after, consumeWhile bytes p cursor = .ok ⟨String.ofList (cs.takeWhile p), after⟩ ∧
      Stands bytes after ⟨place.after (cs.takeWhile p), mode, cs.dropWhile p⟩ := by
  have hsplit : Stands bytes cursor ⟨place, mode, cs.takeWhile p ++ cs.dropWhile p⟩ := by
    rwa [List.takeWhile_append_dropWhile]
  have hcounts := h.counts.after_of_line (not_mem_of_class hline (forall_takeWhile p cs))
  exact ⟨_, h.ahead.consumeWhile hp, hsplit.ahead.onward, h.position_after _,
    ⟨hcounts.line_eq, hcounts.offset_add⟩, h.mode_eq⟩

end Stands

/-! ### Rules without errors -/

/-- What a rule gives on bytes is what it gives on characters, and the cursor goes on where the
characters do. -/
inductive Agrees (bytes : List UInt8) (place : Place) (mode : Mode) :
    Except Halt Cut → Except Fault (Passed (Except LexError Lexeme)) → Prop
  | token {result : Cut} {after : Cursor}
      (hafter : Stands bytes after ⟨place.after result.taken, result.mode, result.rest⟩) :
    Agrees bytes place mode (.ok result) (.ok ⟨.ok result.lexeme, after⟩)
  | failed {halt : Halt} {after : Cursor}
      (hafter : Stands bytes after ⟨place.after halt.taken, mode, halt.rest⟩) :
    Agrees bytes place mode (.error halt) (.ok ⟨.error (Scanner.errorAt place halt.cause), after⟩)

theorem length_encode_singleton (hc : c.toNat < 128) : (Utf8.encode [c]).length = 1 := by
  rw [encode_cons, utf8EncodeChar_of_lt hc]
  rfl

theorem Stands.ahead_next (h : Stands bytes cursor ⟨place, mode, c :: cs⟩) (hc : c.toNat < 128) :
    Ahead bytes (cursor.position + 1) cs := by
  rw [← length_encode_singleton hc]
  exact @Ahead.onward bytes cursor.position [c] cs h.ahead

/-- A cursor is moved over one character of ASCII. -/
theorem Stands.moveTo_next (h : Stands bytes cursor ⟨place, mode, c :: cs⟩) (hc : c.toNat < 128)
    (hline : c ≠ '\n') :
    ∃ after, ByteScanner.moveTo bytes cursor (cursor.position + 1) = .ok after ∧
      Stands bytes after ⟨place.after [c], mode, cs⟩ :=
  Stands.moveTo h (mt List.mem_singleton.mp hline.symm) (length_encode_singleton hc)

theorem agrees_scanName (h : Stands bytes cursor ⟨place, mode, c :: cs⟩) (hc : c.toNat < 128)
    (hline : c ≠ '\n') (kind : Kind) :
    Agrees bytes place mode (.ok (cutName kind mode c cs)) (scanName bytes kind cursor) := by
  obtain ⟨start, hmove, hstart⟩ := h.moveTo_next hc hline
  obtain ⟨after, hname, hafter⟩ := hstart.consumeWhile uniform_isWord rfl
  rw [scanName, hmove, ok_bind, hname, ok_bind]
  exact .token hafter

theorem isWord_of_isWordStart (hc : isWordStart c = true) : isWord c = true := by
  rw [isWordStart, Bool.or_eq_true] at hc
  rcases hc with hc | hc
  · simp [isWord, Char.isAlphanum, hc]
  · simp [isWord, hc]

theorem agrees_scanIdentifier (h : Stands bytes cursor ⟨place, mode, c :: cs⟩)
    (hc : isWordStart c = true) :
    Agrees bytes place mode (.ok (cutIdentifier mode c cs)) (scanIdentifier bytes cursor) := by
  obtain ⟨after, hname, hafter⟩ := h.consumeWhile uniform_isWord rfl
  have hword := isWord_of_isWordStart hc
  rw [List.takeWhile_cons_of_pos hword] at hname hafter
  rw [List.dropWhile_cons_of_pos hword] at hafter
  rw [scanIdentifier, hname, ok_bind]
  exact .token hafter

theorem hexAfterZero?_eq_some_iff {x : Char} {digits : List Char} :
    hexAfterZero? cs = some (x, digits) ↔
      cs = x :: digits ∧ (x = 'x' ∨ x = 'X') ∧ digits.head?.any isHexDigit = true := by
  unfold hexAfterZero?
  split
  · rename_i y d tail
    split_ifs with hhex
    · constructor
      · rintro ⟨⟩
        exact ⟨rfl, hhex⟩
      · rintro ⟨hcons, -⟩
        obtain ⟨rfl, rfl⟩ := List.cons.inj hcons
        rfl
    · refine iff_of_false nofun ?_
      rintro ⟨⟨⟩, hnot⟩
      exact hhex hnot
  · rename_i hshort
    refine iff_of_false nofun ?_
    rintro ⟨rfl, -, hdigit⟩
    cases digits with
    | nil => cases hdigit
    | cons d digits => exact hshort x d digits rfl

theorem agrees_scanHex {x : Char} {digits : List Char}
    (h : Stands bytes cursor ⟨place, mode, '0' :: cs⟩)
    (hhex : hexAfterZero? cs = some (x, digits)) :
    Agrees bytes place mode (.ok (cutHex mode x digits)) (scanHex bytes cursor) := by
  obtain ⟨rfl, hx, -⟩ := hexAfterZero?_eq_some_iff.mp hhex
  have hlength : (Utf8.encode ['0', x]).length = 2 := by rcases hx with rfl | rfl <;> rfl
  have hline : '\n' ∉ ['0', x] := by rcases hx with rfl | rfl <;> decide
  have hsplit : Stands bytes cursor ⟨place, mode, ['0', x] ++ digits⟩ := h
  obtain ⟨start, hmove, hstart⟩ := hsplit.moveTo hline hlength
  obtain ⟨after, hdigits, hafter⟩ := hstart.consumeWhile uniform_isHexDigit rfl
  have htext : "0x" ++ String.ofList (digits.takeWhile isHexDigit) =
      String.ofList ('0' :: 'x' :: digits.takeWhile isHexDigit) := String.ofList_append.symm
  rw [scanHex, hmove, ok_bind, hdigits, ok_bind, htext]
  exact .token hafter

theorem scanSign_eq (h : Stands bytes cursor ⟨place, mode, cs⟩) :
    ∃ after, scanSign bytes cursor = .ok after ∧
      Stands bytes after ⟨place.after (splitSign cs).1, mode, (splitSign cs).2⟩ := by
  have hsign := h.ahead.byteIs_eq_iff (show '-'.toNat < 128 by decide)
  rw [scanSign]
  by_cases hminus : cs.head? = some '-'
  · rw [if_pos (hsign.mpr hminus)]
    obtain ⟨rest, rfl⟩ := List.head?_eq_some_iff.mp hminus
    exact h.moveTo_next (by decide) (by decide)
  · rw [if_neg (mt hsign.mp hminus), splitSign_of_head?_ne hminus]
    exact ⟨cursor, rfl, h⟩

/-- A number is read from its sign on. -/
theorem agrees_scanNumber (h : Stands bytes cursor ⟨place, mode, cs⟩) :
    Agrees bytes place mode (.ok (cutNumber mode (splitSign cs).1 (splitSign cs).2))
      (scanNumber bytes cursor) := by
  obtain ⟨unsigned, hsign, hunsigned⟩ := scanSign_eq h
  obtain ⟨digits, hconsume, hdigits⟩ := hunsigned.consumeWhile uniform_isDigit rfl
  have hpercent := hdigits.ahead.byteIs_eq_iff (show '%'.toNat < 128 by decide)
  rw [← Place.after_append] at hdigits
  have hsplit : cs = ((splitSign cs).1 ++ (splitSign cs).2.takeWhile Char.isDigit) ++
      (splitSign cs).2.dropWhile Char.isDigit := by
    rw [List.append_assoc, List.takeWhile_append_dropWhile, splitSign_append]
  have htext : slice bytes cursor.position digits.position =
      .ok (String.ofList ((splitSign cs).1 ++ (splitSign cs).2.takeWhile Char.isDigit)) := by
    rw [hsplit] at h
    exact h.slice hdigits
  rw [scanNumber, hsign, ok_bind, hconsume, ok_bind, htext, ok_bind, cutNumber]
  split
  · rename_i rest hrest
    rw [hrest] at hdigits hpercent
    obtain ⟨after, hmove, hafter⟩ := hdigits.moveTo_next (by decide) (by decide)
    rw [← Place.after_append] at hafter
    rw [if_pos (hpercent.mpr rfl)]
    dsimp only
    rw [hmove, ok_bind]
    exact .token hafter
  · rename_i hplain
    rw [if_neg]
    · exact .token hdigits
    · intro hsign
      obtain ⟨rest, hrest⟩ := List.head?_eq_some_iff.mp (hpercent.mp hsign)
      exact hplain rest hrest

/-! ### Rules with errors -/

theorem agrees_unrecognised (h : Stands bytes cursor ⟨place, mode, c :: cs⟩) :
    Agrees bytes place mode (.error ⟨.unrecognised c, [], c :: cs⟩)
      (unrecognised bytes cursor) := by
  rw [unrecognised, h.ahead.slice_length, ok_bind, String.toList_ofList, h.place_eq]
  exact .failed h

theorem offsetOf?_append {text : List Char} (hc : c ∉ text) (rest : List Char) :
    offsetOf? c (String.ofList (text ++ c :: rest)) = some (Utf8.encode text).length := by
  have hall : ∀ d ∈ text, decide (d ≠ c) = true :=
    fun d hd ↦ decide_eq_true (ne_of_mem_of_not_mem hd hc)
  have htake : (text ++ c :: rest).takeWhile (· ≠ c) = text :=
    (takeWhile_append_of_stop hall (by simp)).1
  rw [offsetOf?, String.toList_ofList, if_pos (by simp), htake, Utf8.length_encode]

theorem cutString_of_notMem (hquote : '"' ∉ cs) :
    cutString mode cs = .error ⟨.unterminatedString, [], '"' :: cs⟩ := by
  have hdrop : cs.dropWhile isStringBody = [] :=
    List.dropWhile_eq_nil_iff.mpr fun d hd ↦ decide_eq_true (ne_of_mem_of_not_mem hd hquote)
  rw [cutString, hdrop]

/-- A string may run over line ends, which are counted before the cursor is moved. -/
theorem agrees_scanString (h : Stands bytes cursor ⟨place, mode, '"' :: cs⟩) :
    Agrees bytes place mode (cutString mode cs) (scanString bytes cursor) := by
  have hahead := h.ahead_next (by decide)
  rw [scanString, hahead.slice_length, ok_bind]
  by_cases hquote : '"' ∈ cs
  · obtain ⟨body, rest, rfl, hbody⟩ := List.eq_append_cons_of_mem hquote
    have hfirst : (place.next '"').position = cursor.position + 1 := h.position_after ['"']
    have hcounts := (h.counts.next_of_ne (show '"' ≠ '\n' by decide)).newlinesIn body
    rw [hfirst] at hcounts
    have hrest : Ahead bytes (cursor.position + 1 + (Utf8.encode body).length + 1) rest :=
      @Ahead.onward bytes _ ['"'] rest hahead.onward
    have hstop : (((place.next '"').after body).next '"').position =
        cursor.position + 1 + (Utf8.encode body).length + 1 := by
      have hend := PlaceShift.position_after (place.next '"') body
      rw [hfirst] at hend
      rw [← hend]
      rfl
    obtain ⟨after, hmove, hafter⟩ := Stands.of_moveTo hrest hstop
      (hcounts.next_of_ne (show '"' ≠ '\n' by decide)) (h.mode_eq.trans (mode_newlinesIn _ _).symm)
    rw [offsetOf?_append hbody, cutString_append hbody]
    dsimp only
    rw [hahead.sliceBytes, ok_bind, hmove, ok_bind, hahead.slice, ok_bind]
    have hplace : place.after ('"' :: body ++ ['"']) = ((place.next '"').after body).next '"' :=
      Place.after_append place ('"' :: body) ['"']
    rw [← hplace] at hafter
    exact .token hafter
  · rw [cutString_of_notMem hquote, offsetOf?, String.toList_ofList, if_neg hquote, h.place_eq]
    exact .failed h

theorem agrees_scanDollar (h : Stands bytes cursor ⟨place, .outside, '$' :: cs⟩) :
    Agrees bytes place .outside (cutDollar .outside cs) (scanDollar bytes cursor) := by
  have hnext := h.ahead_next (by decide)
  rw [scanDollar]
  cases cs with
  | nil =>
    rw [hnext.byte?_nil, cutDollar, ← h.position_eq]
    exact .failed h
  | cons c cs =>
    rw [hnext.byte?_cons, cutDollar]
    dsimp only
    have hword : isWord (asChar (firstByte c)) = isWord c :=
      class_of_mem uniform_isWord (firstByte_mem c)
    simp only [asChar_firstByte_eq_iff (show '('.toNat < 128 by decide), hword]
    split_ifs with hopen hname
    · subst hopen
      obtain ⟨after, hmove, hafter⟩ := @Stands.moveTo _ _ _ _ ['$', '('] cs h (by decide) 2 rfl
      rw [hmove, ok_bind]
      exact .token (hafter.withMode (.inside 0))
    · exact agrees_scanName h (by decide) (by decide) .variableName
    · exact agrees_unrecognised h

/-! ### Resource ids -/

theorem length_encode_eq_zero_iff : (Utf8.encode cs).length = 0 ↔ cs = [] := by
  rw [List.length_eq_zero_iff]
  exact ⟨fun h ↦ by_contra fun hne ↦ encode_ne_nil hne h, fun h ↦ by rw [h]; rfl⟩

theorem splitNames_succ_of_dot (count : Nat) (hname : cs.takeWhile isWord ≠ [])
    (hrest : cs.dropWhile isWord = '.' :: rest) :
    splitNames (count + 1) cs =
      (cs.takeWhile isWord :: (splitNames count rest).1, (splitNames count rest).2) := by
  simp [splitNames, hrest, hname]

theorem splitNames_succ_of_not_dot (count : Nat)
    (h : ¬ (cs.takeWhile isWord ≠ [] ∧ (cs.dropWhile isWord).head? = some '.')) :
    splitNames (count + 1) cs = ([], cs) := by
  rw [splitNames]
  split
  · rename_i rest hrest
    rw [hrest] at h
    exact if_pos (by simpa using h)
  · rfl

/-- The names in front of the number, with their dots. -/
theorem scanNames_eq (count : Nat) (h : Stands bytes cursor ⟨place, mode, cs⟩) :
    ∃ after, scanNames bytes count cursor = .ok ⟨(splitNames count cs).1.map String.ofList, after⟩ ∧
      Stands bytes after
        ⟨place.after ((splitNames count cs).1.flatMap (· ++ ['.'])), mode,
          (splitNames count cs).2⟩ := by
  induction count generalizing cursor place cs with
  | zero => exact ⟨cursor, rfl, h⟩
  | succ count ih =>
    have hsplit : Stands bytes cursor
        ⟨place, mode, cs.takeWhile isWord ++ cs.dropWhile isWord⟩ := by
      rwa [List.takeWhile_append_dropWhile]
    have hdot := hsplit.ahead.onward.byte?_eq_some_iff (show '.'.toNat < 128 by decide)
    rw [scanNames, h.ahead.runEnd uniform_isWord]
    dsimp only
    by_cases hdotted : cs.takeWhile isWord ≠ [] ∧ (cs.dropWhile isWord).head? = some '.'
    · obtain ⟨hname, hhead⟩ := hdotted
      obtain ⟨rest, hrest⟩ : ∃ rest, cs.dropWhile isWord = '.' :: rest :=
        List.head?_eq_some_iff.mp hhead
      have hname' : Stands bytes cursor ⟨place, mode, (cs.takeWhile isWord ++ ['.']) ++ rest⟩ := by
        rwa [hrest, List.append_cons] at hsplit
      have hline : '\n' ∉ cs.takeWhile isWord ++ ['.'] :=
        List.not_mem_append (not_mem_of_class rfl (forall_takeWhile isWord cs)) (by decide)
      have hlength : (Utf8.encode (cs.takeWhile isWord ++ ['.'])).length =
          (Utf8.encode (cs.takeWhile isWord)).length + 1 := by
        rw [Utf8.encode_append, List.length_append]
        rfl
      obtain ⟨next, hmove, hnext⟩ := hname'.moveTo hline hlength
      obtain ⟨after, hnames, hafter⟩ := ih hnext
      have hnonempty : (Utf8.encode (cs.takeWhile isWord)).length ≠ 0 :=
        mt length_encode_eq_zero_iff.mp hname
      rw [splitNames_succ_of_dot count hname hrest, if_neg]
      · rw [hsplit.ahead.slice, ok_bind, Nat.add_assoc, hmove, ok_bind, hnames, ok_bind]
        rw [← Place.after_append] at hafter
        exact ⟨after, rfl, hafter⟩
      · rw [not_or, not_not]
        exact ⟨by omega, hdot.mpr hhead⟩
    · rw [splitNames_succ_of_not_dot count hdotted, if_pos]
      · exact ⟨cursor, rfl, h⟩
      · by_contra hnot
        rw [not_or, not_not] at hnot
        refine hdotted ⟨fun hempty ↦ hnot.1 ?_, hdot.mp hnot.2⟩
        rw [length_encode_eq_zero_iff.mpr hempty, Nat.add_zero]

/-- The parts of a resource id that is not spelled out. -/
theorem cutResourceId_of_split {names : List (List Char)} {tail sign number : List Char}
    (hne : cs ≠ []) (hauto : ¬ ['a', 'u', 't', 'o'] <+: cs)
    (hnames : splitNames 2 cs = (names, tail)) (hsign : splitSign tail = (sign, number)) :
    cutResourceId mode cs =
      if number.takeWhile Char.isDigit = [] then
        .error ⟨.malformedResourceId, '#' :: names.flatMap (· ++ ['.']) ++ sign, number⟩
      else .ok ⟨.dotted .resourceId
          ((names ++ [sign ++ number.takeWhile Char.isDigit]).map String.ofList),
        '#' :: names.flatMap (· ++ ['.']) ++ sign ++ number.takeWhile Char.isDigit,
        number.dropWhile Char.isDigit, mode⟩ := by
  unfold cutResourceId
  split
  · rename_i rest
    exact absurd ⟨rest, rfl⟩ hauto
  · exact absurd rfl hne
  · rw [hnames]
    dsimp only
    rw [hsign]
    dsimp only
    simp only [List.isEmpty_iff]

/-- A resource id that is not spelled out. -/
theorem agrees_scanResourceId (h : Stands bytes cursor ⟨place, mode, '#' :: cs⟩)
    (hauto : ¬ ['a', 'u', 't', 'o'] <+: cs) :
    Agrees bytes place mode (cutResourceId mode cs) (scanResourceId bytes cursor) := by
  have hnext := h.ahead_next (by decide)
  by_cases hnil : cs = []
  · subst hnil
    rw [scanResourceId, if_pos hnext.byte?_nil, ← h.position_eq]
    exact .failed h
  have hsome : byte? bytes (cursor.position + 1) ≠ none := by
    obtain ⟨c, tail, rfl⟩ := List.exists_cons_of_ne_nil hnil
    rw [hnext.byte?_cons]
    nofun
  cases hnames : splitNames 2 cs with | mk names tail
  cases hsign : splitSign tail with | mk sign number
  obtain ⟨start, hmove, hstart⟩ := h.moveTo_next (by decide) (by decide)
  obtain ⟨named, hscanNames, hnamed⟩ := scanNames_eq 2 hstart
  rw [hnames] at hscanNames hnamed
  obtain ⟨unsigned, hscanSign, hunsigned⟩ := scanSign_eq hnamed
  rw [hsign] at hunsigned
  obtain ⟨after, hconsume, hafter⟩ := hunsigned.consumeWhile uniform_isDigit rfl
  rw [scanResourceId, if_neg hsome, hmove, ok_bind, hscanNames, ok_bind, hscanSign, ok_bind,
    hconsume, ok_bind, cutResourceId_of_split hnil hauto hnames hsign]
  have htaken : (((place.after ['#']).after (names.flatMap (· ++ ['.']))).after sign) =
      place.after ('#' :: names.flatMap (· ++ ['.']) ++ sign) := by
    rw [← Place.after_append, ← Place.after_append]
    rfl
  by_cases hdigits : number.takeWhile Char.isDigit = []
  · have hrest : number.dropWhile Char.isDigit = number := by
      have hsplit := @List.takeWhile_append_dropWhile _ Char.isDigit number
      rwa [hdigits] at hsplit
    rw [hdigits, hrest, htaken] at hafter
    rw [if_pos hdigits, if_pos (String.ofList_eq_empty_iff.mpr hdigits), h.place_eq]
    exact .failed hafter
  · have hnumber : slice bytes named.position after.position =
        .ok (String.ofList (sign ++ number.takeWhile Char.isDigit)) := by
      have htail : tail = (sign ++ number.takeWhile Char.isDigit) ++
          number.dropWhile Char.isDigit := by
        have hsplit := splitSign_append tail
        rw [hsign] at hsplit
        rw [List.append_assoc, List.takeWhile_append_dropWhile, hsplit]
      rw [htail] at hnamed
      rw [← Place.after_append] at hafter
      exact hnamed.slice hafter
    rw [htaken, ← Place.after_append] at hafter
    rw [if_neg hdigits, if_neg (mt String.ofList_eq_empty_iff.mp hdigits), hnumber, ok_bind]
    have hcomponents : names.map String.ofList ++
        [String.ofList (sign ++ number.takeWhile Char.isDigit)] =
        (names ++ [sign ++ number.takeWhile Char.isDigit]).map String.ofList := by simp
    rw [hcomponents]
    exact .token hafter

theorem agrees_scanHash (h : Stands bytes cursor ⟨place, mode, '#' :: cs⟩) :
    Agrees bytes place mode (cutResourceId mode cs) (scanHash bytes cursor) := by
  rw [scanHash, h.ahead.slice_length, ok_bind, String.toList_ofList]
  by_cases hauto : ['a', 'u', 't', 'o'] <+: cs
  · obtain ⟨rest, rfl⟩ := hauto
    have htext : slice bytes (cursor.position + 1) (cursor.position + 5) = .ok "auto" := by
      have hname : Ahead bytes (cursor.position + 1) (['a', 'u', 't', 'o'] ++ rest) :=
        h.ahead_next (by decide)
      exact hname.slice
    obtain ⟨after, hmove, hafter⟩ :=
      @Stands.moveTo _ _ _ _ ['#', 'a', 'u', 't', 'o'] rest h (by decide) 5 rfl
    rw [if_pos (by simp), htext, ok_bind, hmove, ok_bind]
    exact .token hafter
  · rw [if_neg]
    · exact agrees_scanResourceId h hauto
    · rw [List.isPrefixOf_iff_prefix, List.cons_prefix_cons]
      exact fun hprefix ↦ hauto hprefix.2

/-! ### Symbols -/

theorem symbolKind?_beyond (hc : 128 ≤ c.toNat) : symbolKind? c = none := by
  unfold symbolKind?
  split <;> first | rfl | exact absurd hc (by decide)

theorem symbol?_beyond (hc : 128 ≤ c.toNat) : symbol? mode c = none := by
  rw [symbol?, if_neg (ne_of_beyond hc (by decide)), if_neg (ne_of_beyond hc (by decide)),
    symbolKind?_beyond hc]
  rfl

/-- A symbol of one character, where it does not begin one of two. -/
theorem cutSymbol_eq (hshift : ¬ ((c = '<' ∨ c = '>') ∧ cs.head? = some c)) :
    cutSymbol mode c cs =
      match symbol? mode c with
      | some (kind, next) => .ok ⟨.plain kind (String.singleton c), [c], cs, next⟩
      | none => .error ⟨.unrecognised c, [], c :: cs⟩ := by
  have hleft : ¬ (c = '<' ∧ cs.head? = some '<') := by
    rintro ⟨rfl, hhead⟩
    exact hshift ⟨.inl rfl, hhead⟩
  have hright : ¬ (c = '>' ∧ cs.head? = some '>') := by
    rintro ⟨rfl, hhead⟩
    exact hshift ⟨.inr rfl, hhead⟩
  rw [cutSymbol, if_neg hleft, if_neg hright, symbol?]
  split_ifs
  · rfl
  · rfl
  · cases symbolKind? c <;> rfl

theorem symbol?_newline : symbol? mode '\n' = none := rfl

/-- Two angle brackets of one kind. -/
theorem agrees_shift (h : Stands bytes cursor ⟨place, mode, c :: c :: cs⟩)
    (hc : c = '<' ∨ c = '>') :
    ∃ after, moveTo bytes cursor (cursor.position + 2) = .ok after ∧
      slice bytes cursor.position after.position = .ok (String.ofList [c, c]) ∧
      Agrees bytes place mode (cutSymbol mode c (c :: cs))
        (.ok ⟨.ok (.plain (if c = '<' then .leftShift else .rightShift) (String.ofList [c, c])),
          after⟩) := by
  have hlength : (Utf8.encode [c, c]).length = 2 := by rcases hc with rfl | rfl <;> rfl
  have hline : '\n' ∉ [c, c] := by rcases hc with rfl | rfl <;> decide
  have hsplit : Stands bytes cursor ⟨place, mode, [c, c] ++ cs⟩ := h
  obtain ⟨after, hmove, hafter⟩ := hsplit.moveTo hline hlength
  refine ⟨after, hmove, hsplit.slice hafter, ?_⟩
  rcases hc with rfl | rfl
  · exact .token hafter
  · exact .token hafter

theorem agrees_scanSymbol (h : Stands bytes cursor ⟨place, mode, c :: cs⟩) :
    Agrees bytes place mode (cutSymbol mode c cs) (scanSymbol bytes cursor) := by
  rw [scanSymbol, byte, h.ahead.byte?_cons]
  dsimp only
  rw [ok_bind, ← h.mode_eq]
  by_cases hc : c.toNat < 128
  · have hnext := h.ahead_next hc
    have hsame := hnext.byteIs_eq_iff hc
    rw [asChar_firstByte hc]
    by_cases hshift : (c = '<' ∨ c = '>') ∧ cs.head? = some c
    · rw [if_pos ⟨hshift.1, hsame.mpr hshift.2⟩]
      obtain ⟨rest, rfl⟩ : ∃ rest, cs = c :: rest := List.head?_eq_some_iff.mp hshift.2
      obtain ⟨after, hmove, htext, hagrees⟩ := agrees_shift h hshift.1
      rw [hmove, ok_bind, htext, ok_bind]
      exact hagrees
    · rw [if_neg fun hboth ↦ hshift ⟨hboth.1, hsame.mp hboth.2⟩, cutSymbol_eq hshift]
      cases hsymbol : symbol? mode c with
      | none => exact agrees_unrecognised h
      | some symbol =>
        have hline : c ≠ '\n' := by
          rintro rfl
          rw [symbol?_newline] at hsymbol
          cases hsymbol
        obtain ⟨after, hmove, hafter⟩ := h.moveTo_next hc hline
        have htext : slice bytes cursor.position after.position = .ok (String.singleton c) :=
          Stands.slice (show Stands bytes cursor ⟨place, mode, [c] ++ cs⟩ from h) hafter
        dsimp only
        rw [hmove, ok_bind, htext, ok_bind]
        exact .token (hafter.withMode symbol.2)
  · have hbeyond := Nat.le_of_not_lt hc
    have hfirst := asChar_firstByte_beyond hbeyond
    have hshift : ¬ ((c = '<' ∨ c = '>') ∧ cs.head? = some c) := by
      rintro ⟨rfl | rfl, -⟩ <;> exact hc (by decide)
    rw [if_neg, symbol?_beyond hfirst, cutSymbol_eq hshift, symbol?_beyond hbeyond]
    · exact agrees_unrecognised h
    · rintro ⟨hangle | hangle, -⟩
      · exact ne_of_beyond hfirst (by decide) hangle
      · exact ne_of_beyond hfirst (by decide) hangle

/-! ### All rules -/

/-- The two bytes behind a zero tell whether a hexadecimal literal begins there. -/
theorem hexAhead_iff (h : Stands bytes cursor ⟨place, mode, '0' :: cs⟩) :
    (byteIs bytes (cursor.position + 1) (fun x ↦ x = 'x' || x = 'X') = true ∧
        byteIs bytes (cursor.position + 2) isHexDigit = true) ↔ hexAfterZero? cs ≠ none := by
  have hnext := h.ahead_next (by decide)
  have huniform : Uniform fun x ↦ x = 'x' || x = 'X' :=
    uniform_of_beyond false fun x hx ↦ by
      have hlower : x ≠ 'x' := ne_of_beyond hx (by decide)
      have hupper : x ≠ 'X' := ne_of_beyond hx (by decide)
      simp [hlower, hupper]
  rw [hnext.byteIs huniform]
  cases cs with
  | nil => exact iff_of_false (fun hboth ↦ nomatch hboth.1) fun hne ↦ hne rfl
  | cons x digits =>
    by_cases hx : x = 'x' ∨ x = 'X'
    · have hdigits : Ahead bytes (cursor.position + 2) digits := by
        have hlength : (Utf8.encode ['0', x]).length = 2 := by rcases hx with rfl | rfl <;> rfl
        rw [← hlength]
        exact @Ahead.onward bytes cursor.position ['0', x] digits h.ahead
      rw [hdigits.byteIs uniform_isHexDigit]
      cases digits <;> simp [hexAfterZero?, hx]
    · cases digits <;> simp [hexAfterZero?, hx]

/-- A character beyond ASCII begins no token. -/
theorem agrees_beyond (h : Stands bytes cursor ⟨place, mode, c :: cs⟩) (hc : 128 ≤ c.toNat) :
    Agrees bytes place mode (cut mode c cs) (scanToken bytes cursor (asChar (firstByte c))) := by
  have hmark : c ∉ ['@', '"', '#', '$'] := by
    simp [ne_of_beyond hc (show '@'.toNat < 128 by decide),
      ne_of_beyond hc (show '"'.toNat < 128 by decide),
      ne_of_beyond hc (show '#'.toNat < 128 by decide),
      ne_of_beyond hc (show '$'.toNat < 128 by decide)]
  have hminus : ¬ (c = '-' ∧ cs.head?.any Char.isDigit = true) :=
    fun hboth ↦ ne_of_beyond hc (by decide) hboth.1
  have hfirst := asChar_firstByte_beyond hc
  have hne (d : Char) (hd : d.toNat < 128) : asChar (firstByte c) ≠ d := ne_of_beyond hfirst hd
  rw [cut_of_byRule (.symbol hmark (isDigit_beyond hc) (isWordStart_beyond hc) hminus rfl),
    scanToken, if_neg (hne _ (by decide)), if_neg (hne _ (by decide)), if_neg (hne _ (by decide)),
    if_neg fun hboth ↦ hne _ (by decide) hboth.1, if_neg fun hboth ↦ hne _ (by decide) hboth.1,
    if_neg fun hboth ↦ hne _ (by decide) hboth.1, if_neg (by simp [isDigit_beyond hfirst]),
    if_neg (by simp [isWordStart_beyond hfirst])]
  exact agrees_scanSymbol h

/-- A digit begins a number, where no hexadecimal literal begins. -/
theorem agrees_digit (h : Stands bytes cursor ⟨place, mode, c :: cs⟩) (hc : c.isDigit = true)
    (hhex : c = '0' → hexAfterZero? cs = none) :
    Agrees bytes place mode (.ok (cutNumber mode [] (c :: cs))) (scanToken bytes cursor c) := by
  have hnumber := agrees_scanNumber h
  have hsign : (c :: cs).head? ≠ some '-' := by
    rw [List.head?_cons, ne_eq, Option.some_inj]
    exact ne_of_class hc rfl
  rw [splitSign_of_head?_ne hsign] at hnumber
  rw [scanToken, if_neg (ne_of_class hc rfl), if_neg (ne_of_class hc rfl),
    if_neg (ne_of_class hc rfl), if_neg fun hdollar ↦ ne_of_class hc rfl hdollar.1, if_neg,
    if_neg fun hminus ↦ ne_of_class hc rfl hminus.1, if_pos hc]
  · exact hnumber
  · rintro ⟨rfl, hahead⟩
    exact (hexAhead_iff h).mp hahead (hhex rfl)

/-- Whichever rule applies, it gives on bytes what it gives on characters. -/
theorem agrees_scanToken (h : Stands bytes cursor ⟨place, mode, c :: cs⟩) :
    Agrees bytes place mode (cut mode c cs) (scanToken bytes cursor (asChar (firstByte c))) := by
  by_cases hbeyond : 128 ≤ c.toNat
  · exact agrees_beyond h hbeyond
  have hascii := Nat.lt_of_not_le hbeyond
  have hnext := h.ahead_next hascii
  rw [asChar_firstByte hascii]
  cases byRule_of_cut (Eq.refl (cut mode c cs)) with
  | directive hc hcut =>
    subst hc
    exact agrees_scanName h (by decide) (by decide) .directive
  | string hc hcut =>
    subst hc
    exact agrees_scanString h
  | resourceId hc hcut =>
    subst hc
    exact agrees_scanHash h
  | dollar hc hcut =>
    subst hc
    rw [← hcut, scanToken, if_neg (by decide), if_neg (by decide), if_neg (by decide), ← h.mode_eq]
    cases mode with
    | outside =>
      rw [if_pos ⟨rfl, rfl⟩]
      exact agrees_scanDollar h
    | inside depth =>
      rw [if_neg nofun]
      exact agrees_scanSymbol h
  | hexadecimal hc hhex hcut =>
    subst hc
    have hahead := (hexAhead_iff h).mpr (by rw [hhex]; nofun)
    rw [← hcut, scanToken, if_neg (by decide), if_neg (by decide), if_neg (by decide),
      if_neg fun hdollar ↦ absurd hdollar.1 (by decide), if_pos ⟨rfl, hahead⟩]
    exact agrees_scanHex h hhex
  | number hc hhex hcut =>
    rw [← hcut]
    exact agrees_digit h hc hhex
  | negative hc hdigit hcut =>
    subst hc
    rw [← hcut, scanToken, if_neg (by decide), if_neg (by decide), if_neg (by decide),
      if_neg fun hdollar ↦ absurd hdollar.1 (by decide),
      if_neg fun hzero ↦ absurd hzero.1 (by decide),
      if_pos ⟨rfl, (hnext.byteIs uniform_isDigit).trans hdigit⟩]
    exact agrees_scanNumber h
  | identifier hc hcut =>
    have hdigit := not_isDigit_of_isWordStart hc
    rw [← hcut, scanToken, if_neg (ne_of_class hc rfl), if_neg (ne_of_class hc rfl),
      if_neg (ne_of_class hc rfl), if_neg fun hdollar ↦ ne_of_class hc rfl hdollar.1,
      if_neg fun hzero ↦ ne_of_class hc rfl hzero.1,
      if_neg fun hminus ↦ ne_of_class hc rfl hminus.1, if_neg (by simp [hdigit]), if_pos hc]
    exact agrees_scanIdentifier h hc
  | symbol hmark hdigit hstart hminus hcut =>
    simp only [List.mem_cons, List.not_mem_nil, not_or] at hmark
    obtain ⟨hdirective, hstring, hid, hdollar, -⟩ := hmark
    have hzero : c ≠ '0' := by
      rintro rfl
      cases hdigit
    have hnegative : ¬ (c = '-' ∧ byteIs bytes (cursor.position + 1) Char.isDigit = true) := by
      rwa [hnext.byteIs uniform_isDigit]
    rw [← hcut, scanToken, if_neg hdirective, if_neg hstring, if_neg hid,
      if_neg fun hboth ↦ hdollar hboth.1, if_neg fun hboth ↦ hzero hboth.1, if_neg hnegative,
      if_neg (by simp [hdigit]), if_neg (by simp [hstart])]
    exact agrees_scanSymbol h

end ResourceLang.Proofs.ByteRules
