import Mathlib.Tactic.SplitIfs
import ResourceLang.Proofs.CutLocality
import ResourceLang.Proofs.PlaceShift
import ResourceLang.Proofs.ScannerPath
import ResourceLang.Proofs.ShortenedCut

/-!
Texts whose lines end in a carriage return and a line feed. A carriage return put in front of every
line feed is passed over wherever a line ends, in a gap, at the end of a comment and behind a token,
so the same tokens are cut at the same lines and offsets, a byte further on for every line above.
Only a string that runs over a line end tells the two texts apart.
-/

set_option autoImplicit false
set_option relaxedAutoImplicit false

namespace ResourceLang.Proofs.ReturnedLines

open Text Token Token.Scan LexemeGrammar SpelledLexemes CutSoundness CutLocality ShortenedCut
  ScannerRun PlaceShift
  ScannerPath

variable {source : Option SourceId} {scanner after last : Scanner}

/-- The characters with a carriage return in front of every line feed. -/
def returned (cs : List Char) : List Char :=
  cs.flatMap fun c ↦ if c = '\n' then ['\r', '\n'] else [c]

/-- The text with lines that end in a carriage return and a line feed. -/
def withReturns (text : String) : String := String.ofList (returned text.toList)

/-- The place with a byte more before it for every line above. -/
def lowered (place : Place) : Place := ⟨place.position + (place.line - 1), place.line, place.offset⟩

def loweredToken (token : Token) : Token := ⟨token.lexeme, lowered token.place, token.source⟩

/-- Where a scanner stands in the one text, and where in the other. -/
def loweredScanner (scanner : Scanner) : Scanner :=
  ⟨lowered scanner.place, scanner.mode, returned scanner.rest⟩

/-! ### Places -/

theorem returned_cons_of_ne {c : Char} (hc : c ≠ '\n') (cs : List Char) :
    returned (c :: cs) = c :: returned cs := by
  rw [returned, List.flatMap_cons, if_neg hc]
  rfl

theorem returned_lineFeed (cs : List Char) : returned ('\n' :: cs) = '\r' :: '\n' :: returned cs :=
  rfl

theorem returned_append (cs ds : List Char) : returned (cs ++ ds) = returned cs ++ returned ds :=
  List.flatMap_append

/-- Within a line there is nothing to put in. -/
theorem returned_of_not_mem {cs : List Char} (h : '\n' ∉ cs) : returned cs = cs := by
  induction cs with
  | nil => rfl
  | cons c cs ih =>
    have hc : c ≠ '\n' := (List.ne_of_not_mem_cons h).symm
    rw [returned_cons_of_ne hc, ih (List.not_mem_of_not_mem_cons h)]

theorem next_lowered {place : Place} {c : Char} (hc : c ≠ '\n') :
    (lowered place).next c = lowered (place.next c) := by
  simp only [Place.next, lowered, hc, ↓reduceIte, Place.mk.injEq, and_self, and_true]
  omega

/-- Behind the end of a line the place is one more byte further on than in front of it. -/
theorem next_lowered_lineFeed {place : Place} (hline : 0 < place.line) :
    ((lowered place).next '\r').next '\n' = lowered (place.next '\n') := by
  have hreturn : Char.utf8Size '\r' = 1 := rfl
  simp only [Place.next, lowered, hreturn, Char.reduceEq, ↓reduceIte, Place.mk.injEq, and_self,
    and_true]
  omega

theorem line_next (place : Place) (c : Char) : place.line ≤ (place.next c).line := by
  unfold Place.next
  split_ifs
  · exact Nat.le_succ _
  · exact le_rfl

theorem after_lowered {place : Place} {cs : List Char} (h : '\n' ∉ cs) :
    (lowered place).after cs = lowered (place.after cs) := by
  induction cs generalizing place with
  | nil => rfl
  | cons c cs ih =>
    have hc : c ≠ '\n' := (List.ne_of_not_mem_cons h).symm
    have hnext := @ih (place.next c) (List.not_mem_of_not_mem_cons h)
    rw [← next_lowered hc] at hnext
    exact hnext

/-! ### Gaps -/

/-- A gap is passed over in the one text as in the other, whether it begins in a comment or not. -/
theorem skipGap_returned (inComment : Bool) {place : Place} (hline : 0 < place.line)
    (cs : List Char) :
    skipGap inComment (lowered place) (returned cs) =
      (lowered (skipGap inComment place cs).1, returned (skipGap inComment place cs).2) := by
  induction cs generalizing inComment place with
  | nil => rfl
  | cons c cs ih =>
    have hnext := hline.trans_le (line_next place c)
    by_cases hc : c = '\n'
    · -- The carriage return goes on with a comment, and the line feed ends it.
      subst hc
      have hplain : skipGap inComment place ('\n' :: cs) = skipGap false (place.next '\n') cs := by
        cases inComment <;> rfl
      have hreturn : skipGap inComment (lowered place) ('\r' :: '\n' :: returned cs) =
          skipGap false (((lowered place).next '\r').next '\n') (returned cs) := by
        cases inComment <;> rfl
      rw [returned_lineFeed, hplain, hreturn, next_lowered_lineFeed hline, ih false hnext]
    · rw [returned_cons_of_ne hc]
      unfold skipGap
      rw [next_lowered hc]
      simp only [ih _ hnext]
      split_ifs
      · rfl
      · rfl
      · rfl
      · exact Prod.ext rfl (returned_cons_of_ne hc cs).symm

/-! ### Tokens -/

/-- Only a string that runs over a line end is spelled with a line feed. -/
theorem lineFeed_not_mem_of_spells {lexeme : Lexeme} {taken : List Char} (hlexical : Lexical lexeme)
    (hspells : Spells lexeme taken) (hstring : lexeme.kind = .string → '\n' ∉ lexeme.text.toList) :
    '\n' ∉ taken := by
  rcases hspells with rfl | ⟨digits, hdigits, -, rfl⟩
  · cases hlexical with
    | directive hname =>
      rw [spelling_plain]
      exact List.not_mem_cons_of_ne_of_not_mem (by decide) (not_mem_of_class rfl hname)
    | variableName hname =>
      rw [spelling_plain]
      exact List.not_mem_cons_of_ne_of_not_mem (by decide) (not_mem_of_class rfl hname.2)
    | identifier hfirst hname =>
      rw [spelling_plain]
      refine List.not_mem_cons_of_ne_of_not_mem ?_ (not_mem_of_class rfl hname)
      rintro rfl
      cases hfirst
    | integer hnumber =>
      rw [spelling_plain]
      exact not_mem_of_isDecimal rfl (by decide) hnumber
    | hexadecimal hdigits =>
      rw [spelling_plain]
      exact List.not_mem_cons_of_ne_of_not_mem (by decide)
        (List.not_mem_cons_of_ne_of_not_mem (by decide) (not_mem_of_class rfl hdigits.2))
    | percentage hnumber =>
      rw [spelling_plain]
      exact List.not_mem_append (not_mem_of_isDecimal rfl (by decide) hnumber) (by decide)
    | @string body hbody =>
      have hline : '\n' ∉ body := by
        have htext := hstring rfl
        rwa [Lexeme.plain, String.toList_ofList] at htext
      rw [spelling_plain]
      exact List.not_mem_append (List.not_mem_cons_of_ne_of_not_mem (by decide) hline) (by decide)
    | auto => decide
    | @resourceId names number _ hnames hnumber _ =>
      rw [spelling_resourceId]
      refine List.not_mem_cons_of_ne_of_not_mem (by decide)
        (List.not_mem_append ?_ (not_mem_of_isDecimal rfl (by decide) hnumber))
      intro hmem
      obtain ⟨name, hname, hmem⟩ := List.mem_flatMap.mp hmem
      exact List.not_mem_append (not_mem_of_class rfl (hnames name hname).2) (by decide) hmem
    | @symbol kind text htext =>
      rw [spelling_symbol htext]
      cases kind <;> cases htext <;> decide
  · exact List.not_mem_cons_of_ne_of_not_mem (by decide)
        (List.not_mem_cons_of_ne_of_not_mem (by decide) (not_mem_of_class rfl hdigits.2))

theorem stops_returned {cs : List Char} (h : ∀ c ∈ cs.head?, c = '\n') : Stops (returned cs) := by
  cases cs with
  | nil => simp [Stops, returned]
  | cons c cs =>
    obtain rfl := h c rfl
    intro d hd
    obtain rfl : '\r' = d := Option.some.inj hd
    rfl

/-- A token within a line is cut off whatever ends that line: up to the line end the two texts are
one, and no token hangs on what is behind it. -/
theorem cut_returned {mode : Mode} {c : Char} {cs : List Char} {result : Cut}
    (h : cut mode c cs = .ok result) (hline : '\n' ∉ result.taken) :
    cut mode c (returned cs) = .ok (leaving result (returned result.rest)) := by
  have hsource := source_cut mode c cs
  have htaken := advances_cut mode c cs
  rw [h] at hsource htaken
  obtain ⟨d, front, hfront⟩ := List.exists_cons_of_ne_nil htaken
  rw [Scan.source, hfront, List.cons_append] at hsource
  obtain ⟨rfl, rfl⟩ := List.cons.inj hsource
  rw [hfront] at hline
  -- The rest of the line, and the line end with what is below it.
  obtain ⟨line, below, hrest, hkeep, hbelow⟩ : ∃ line below,
      result.rest = line ++ below ∧ '\n' ∉ line ∧ ∀ c ∈ below.head?, c = '\n' := by
    refine ⟨result.rest.takeWhile (· ≠ '\n'), result.rest.dropWhile (· ≠ '\n'),
      List.takeWhile_append_dropWhile.symm, fun hmem ↦ ?_, fun c hc ↦ ?_⟩
    · simpa using forall_takeWhile _ _ _ hmem
    · have hhead := List.head?_dropWhile_not (· ≠ '\n') result.rest
      rw [Option.mem_def.mp hc] at hhead
      simpa using hhead
  rw [hrest, ← List.append_assoc] at h
  have hshort := cut_local (stops_returned hbelow) (cut_shortened h hrest)
  have hsame : returned (front ++ line) = front ++ line :=
    returned_of_not_mem (List.not_mem_append (List.not_mem_of_not_mem_cons hline) hkeep)
  rw [hrest, ← List.append_assoc, returned_append, hsame, returned_append,
    returned_of_not_mem hkeep]
  exact hshort

/-! ### Steps and paths -/

theorem step_returned_of_token {token : Token} (h : scanner.step source = .token token after)
    (hline : 0 < scanner.place.line) (hstring : token.kind = .string → '\n' ∉ token.text.toList) :
    (loweredScanner scanner).step source = .token (loweredToken token) (loweredScanner after) := by
  obtain ⟨gap, rest, -, hskip, -⟩ := skipGap_spec false scanner.place scanner.rest
  have hreturned := skipGap_returned false hline scanner.rest
  rw [hskip] at hreturned
  unfold Scanner.step at h ⊢
  simp only [loweredScanner, hskip, hreturned] at h ⊢
  split at h
  · cases h
  · rename_i c cs
    split at h
    · rename_i result hcut
      obtain ⟨rfl, rfl⟩ := Scanner.Step.token.inj h
      have hsound := sound_cut hcut
      have htaken := lineFeed_not_mem_of_spells hsound.lexical hsound.spells hstring
      have hc : c ≠ '\n' := by
        rintro rfl
        cases (not_gap_of_cut hcut).1
      rw [returned_cons_of_ne hc]
      simp only [cut_returned hcut htaken, leaving, after_lowered htaken]
      rfl
    · cases h

theorem step_returned_of_finished (h : scanner.step source = .finished after)
    (hline : 0 < scanner.place.line) :
    ∃ ending, (loweredScanner scanner).step source = .finished ending := by
  have hreturned := skipGap_returned false hline scanner.rest
  unfold Scanner.step at h ⊢
  simp only [loweredScanner, hreturned] at h ⊢
  split at h
  · rename_i hnil
    rw [hnil]
    exact ⟨_, rfl⟩
  · split at h <;> cases h

theorem line_le_of_token {token : Token} (h : scanner.step source = .token token after) :
    scanner.place.line ≤ after.place.line := by
  obtain ⟨gap, taken, hpasses⟩ := passes_of_step h
  rw [hpasses.after_eq, hpasses.place_eq, line_after, line_after, Nat.add_assoc]
  exact Nat.le_add_right _ _

/-- The same path leads through both texts. -/
theorem path_returned {tokens : List Token} (h : Path source scanner tokens last)
    (hline : 0 < scanner.place.line)
    (hstrings : ∀ token ∈ tokens, token.kind = .string → '\n' ∉ token.text.toList) :
    Path source (loweredScanner scanner) (tokens.map loweredToken) (loweredScanner last) ∧
      0 < last.place.line := by
  induction h with
  | stay scanner => exact ⟨.stay _, hline⟩
  | step hstep _ ih =>
    obtain ⟨hstring, hstrings⟩ := List.forall_mem_cons.mp hstrings
    obtain ⟨hpath, hlast⟩ := ih (hline.trans_le (line_le_of_token hstep)) hstrings
    exact ⟨.step (step_returned_of_token hstep hline hstring) hpath, hlast⟩

/-- Where no string runs over a line end, a carriage return in front of every line feed changes no
token of a text: kind, text, components, line and offset are the same, and the position is as many
bytes greater as there are lines above. -/
theorem tokenize_withReturns {text : String} {tokens : List Token} (h : tokenize text = .ok tokens)
    (hstrings : ∀ token ∈ tokens, token.kind = .string → '\n' ∉ token.text.toList) :
    tokenize (withReturns text) = .ok (tokens.map loweredToken) := by
  obtain ⟨last, after, hpath, hlast⟩ := path_of_tokenize_ok h
  have hstart : Scanner.ofText (withReturns text) = loweredScanner (.ofText text) := by
    rw [Scanner.ofText, withReturns, String.toList_ofList]
    rfl
  obtain ⟨hreturned, hline⟩ := path_returned hpath Nat.one_pos hstrings
  obtain ⟨ending, hending⟩ := step_returned_of_finished hlast hline
  rw [← hstart] at hreturned
  exact tokenize_of_path hreturned hending

/-- A text with a comment, with a line that ends in a carriage return already, and with symbols at
the ends of lines. -/
def mixedLines : String := "a\x60 é\r\n\n\t\"é\" <\n-5"

def mixedLinesTokens : List Token :=
  [⟨.plain .identifier "a", ⟨0, 1, 0⟩, none⟩, ⟨.plain .string "é", ⟨9, 3, 1⟩, none⟩,
    ⟨.plain .leftAngle "<", ⟨14, 3, 6⟩, none⟩, ⟨.plain .integer "-5", ⟨16, 4, 0⟩, none⟩]

theorem tokenize_withReturns_mixedLines :
    tokenize mixedLines = .ok mixedLinesTokens ∧
      (∀ token ∈ mixedLinesTokens, token.kind = .string → '\n' ∉ token.text.toList) ∧
        tokenize "a\x60 é\r\r\n\r\n\t\"é\" <\r\n-5" =
          .ok [⟨.plain .identifier "a", ⟨0, 1, 0⟩, none⟩, ⟨.plain .string "é", ⟨11, 3, 1⟩, none⟩,
            ⟨.plain .leftAngle "<", ⟨16, 3, 6⟩, none⟩,
              ⟨.plain .integer "-5", ⟨19, 4, 0⟩, none⟩] := by
  have h : tokenize mixedLines = .ok mixedLinesTokens := by decide +kernel
  have hstrings : ∀ token ∈ mixedLinesTokens, token.kind = .string → '\n' ∉ token.text.toList := by
    decide
  have htext : withReturns mixedLines = "a\x60 é\r\r\n\r\n\t\"é\" <\r\n-5" := by decide
  refine ⟨h, hstrings, ?_⟩
  rw [← htext, tokenize_withReturns h hstrings]
  rfl

end ResourceLang.Proofs.ReturnedLines
