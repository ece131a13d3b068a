import ResourceLang.Token.Basic

/-!
One token at the front of a text. `skipGap` passes over white space and comments, and `cut` reads
the longest token of the rule that the first character chooses. What `cut` takes and what it leaves
make up the text it was given, and it never takes nothing.
-/

set_option autoImplicit false
set_option relaxedAutoImplicit false

namespace ResourceLang.Token.Scan

/-- Whether a scanner is outside or inside an expression, which `$(` opens. Inside, `depth` counts
the parentheses opened since and not closed yet. -/
inductive Mode
  | outside
  | inside (depth : Nat)
  deriving DecidableEq, Repr

def isBlank (c : Char) : Bool := c = ' ' || c = '\t' || c = '\n' || c = '\r'

def isWordStart (c : Char) : Bool := c.isAlpha || c = '_'

def isWord (c : Char) : Bool := c.isAlphanum || c = '_'

def isHexDigit (c : Char) : Bool :=
  c.isDigit || ('a' ≤ c && c ≤ 'f') || ('A' ≤ c && c ≤ 'F')

/-- Passes over white space and comments. A comment runs from a backtick up to the end of its
line. -/
def skipGap (inComment : Bool) (place : Place) : List Char → Place × List Char
  | [] => (place, [])
  | c :: cs =>
    if inComment then skipGap (c ≠ '\n') (place.next c) cs
    else if isBlank c then skipGap false (place.next c) cs
    else if c = '\x60' then skipGap true (place.next c) cs
    else (place, c :: cs)

/-- A token cut off the front of a text. -/
structure Cut where
  lexeme : Lexeme
  taken : List Char
  rest : List Char
  mode : Mode
  deriving DecidableEq, Repr

inductive Cause
  | unrecognised (found : Char)
  | endOfText
  | malformedResourceId
  | unterminatedString
  deriving DecidableEq, Repr

/-- Why no token could be cut off, and how far the attempt went before it failed. -/
structure Halt where
  cause : Cause
  taken : List Char
  rest : List Char
  deriving DecidableEq, Repr

/-- The token of `kind` that the run of word characters after `mark` names. -/
def cutName (kind : Kind) (mode : Mode) (mark : Char) (cs : List Char) : Cut where
  lexeme := .plain kind (String.ofList (cs.takeWhile isWord))
  taken := mark :: cs.takeWhile isWord
  rest := cs.dropWhile isWord
  mode := mode

def cutIdentifier (mode : Mode) (c : Char) (cs : List Char) : Cut where
  lexeme := .plain .identifier (String.ofList (c :: cs.takeWhile isWord))
  taken := c :: cs.takeWhile isWord
  rest := cs.dropWhile isWord
  mode := mode

def isStringBody (c : Char) : Bool := c ≠ '"'

/-- A string runs to the next double quote, over line ends too; nothing is escaped in it. -/
def cutString (mode : Mode) (cs : List Char) : Except Halt Cut :=
  let body := cs.takeWhile isStringBody
  match cs.dropWhile isStringBody with
  | [] => .error ⟨.unterminatedString, [], '"' :: cs⟩
  | quote :: rest => .ok ⟨.plain .string (String.ofList body), '"' :: body ++ [quote], rest, mode⟩

/-- At most `count` names that each end in a dot, and what follows them. -/
def splitNames : (count : Nat) → List Char → List (List Char) × List Char
  | 0, cs => ([], cs)
  | count + 1, cs =>
    let name := cs.takeWhile isWord
    match cs.dropWhile isWord with
    | '.' :: rest =>
      if name.isEmpty then ([], cs)
      else (name :: (splitNames count rest).1, (splitNames count rest).2)
    | _ => ([], cs)

/-- The minus sign in front, if there is one. -/
def splitSign : List Char → List Char × List Char
  | '-' :: cs => (['-'], cs)
  | cs => ([], cs)

/-- A resource id is `#auto`, or `#` and a number with at most two names in front. -/
def cutResourceId (mode : Mode) (cs : List Char) : Except Halt Cut :=
  match cs with
  | 'a' :: 'u' :: 't' :: 'o' :: rest =>
    .ok ⟨.plain .resourceId "auto", ['#', 'a', 'u', 't', 'o'], rest, mode⟩
  | [] => .error ⟨.endOfText, [], ['#']⟩
  | cs =>
    let (names, tail) := splitNames 2 cs
    let (sign, tail) := splitSign tail
    let digits := tail.takeWhile Char.isDigit
    let taken := '#' :: names.flatMap (· ++ ['.']) ++ sign
    if digits.isEmpty then .error ⟨.malformedResourceId, taken, tail⟩
    else
      let components := names ++ [sign ++ digits]
      .ok ⟨.dotted .resourceId (components.map String.ofList), taken ++ digits,
        tail.dropWhile Char.isDigit, mode⟩

/-- `$(` opens an expression and `$` before a word names a variable, both outside expressions
only. -/
def cutDollar (mode : Mode) (cs : List Char) : Except Halt Cut :=
  match mode, cs with
  | .inside _, _ => .error ⟨.unrecognised '$', [], '$' :: cs⟩
  | .outside, [] => .error ⟨.endOfText, [], ['$']⟩
  | .outside, c :: rest =>
    if c = '(' then .ok ⟨.plain .expressionOpen "$(", ['$', '('], rest, .inside 0⟩
    else if isWord c then .ok (cutName .variableName .outside '$' (c :: rest))
    else .error ⟨.unrecognised '$', [], '$' :: c :: rest⟩

/-- The digits of a hexadecimal literal, given the text after its leading zero. -/
def hexAfterZero? : List Char → Option (Char × List Char)
  | x :: d :: cs => if (x = 'x' ∨ x = 'X') ∧ isHexDigit d then some (x, d :: cs) else none
  | _ => none

/-- Digits after `sign`, which is empty or a minus sign; a per cent sign may end them. -/
def cutNumber (mode : Mode) (sign cs : List Char) : Cut :=
  let digits := sign ++ cs.takeWhile Char.isDigit
  match cs.dropWhile Char.isDigit with
  | '%' :: rest => ⟨.plain .percentage (String.ofList digits), digits ++ ['%'], rest, mode⟩
  | rest => ⟨.plain .integer (String.ofList digits), digits, rest, mode⟩

/-- A hexadecimal literal has a lower-case `x` in its text, however it was written. -/
def cutHex (mode : Mode) (x : Char) (cs : List Char) : Cut where
  lexeme := .plain .integer (String.ofList ('0' :: 'x' :: cs.takeWhile isHexDigit))
  taken := '0' :: x :: cs.takeWhile isHexDigit
  rest := cs.dropWhile isHexDigit
  mode := mode

/-- The kind of a symbol of one character, parentheses apart. -/
def symbolKind? : Char → Option Kind
  | ';' => some .semicolon
  | '\x7b' => some .leftBrace
  | '\x7d' => some .rightBrace
  | '[' => some .leftBracket
  | ']' => some .rightBracket
  | '<' => some .leftAngle
  | '>' => some .rightAngle
  | '=' => some .equals
  | '+' => some .plus
  | '-' => some .minus
  | '*' => some .star
  | '/' => some .slash
  | '&' => some .ampersand
  | '.' => some .dot
  | ',' => some .comma
  | '|' => some .pipe
  | '^' => some .caret
  | ':' => some .colon
  | '!' => some .exclamation
  | '~' => some .tilde
  | _ => none

def Mode.afterOpen : Mode → Mode
  | outside => outside
  | inside depth => inside (depth + 1)

/-- A closing parenthesis that nothing inside the expression opened closes the expression. -/
def Mode.afterClose : Mode → Kind × Mode
  | outside => (.rightParen, outside)
  | inside 0 => (.expressionClose, outside)
  | inside (depth + 1) => (.rightParen, inside depth)

def cutSymbol (mode : Mode) (c : Char) (cs : List Char) : Except Halt Cut :=
  let single (kind : Kind) (mode : Mode) : Except Halt Cut :=
    .ok ⟨.plain kind (String.singleton c), [c], cs, mode⟩
  if c = '<' ∧ cs.head? = some '<' then .ok ⟨.plain .leftShift "<<", ['<', '<'], cs.drop 1, mode⟩
  else if c = '>' ∧ cs.head? = some '>' then
    .ok ⟨.plain .rightShift ">>", ['>', '>'], cs.drop 1, mode⟩
  else if c = '(' then single .leftParen mode.afterOpen
  else if c = ')' then single mode.afterClose.1 mode.afterClose.2
  else
    match symbolKind? c with
    | some kind => single kind mode
    | none => .error ⟨.unrecognised c, [], c :: cs⟩

/-- The token that begins with `c`, or why there is none. -/
def cut (mode : Mode) (c : Char) (cs : List Char) : Except Halt Cut :=
  if c = '@' then .ok (cutName .directive mode '@' cs)
  else if c = '"' then cutString mode cs
  else if c = '#' then cutResourceId mode cs
  else if c = '$' then cutDollar mode cs
  else if c.isDigit then
    match if c = '0' then hexAfterZero? cs else none with
    | some (x, digits) => .ok (cutHex mode x digits)
    | none => .ok (cutNumber mode [] (c :: cs))
  else if c = '-' ∧ cs.head?.any Char.isDigit then .ok (cutNumber mode ['-'] cs)
  else if isWordStart c then .ok (cutIdentifier mode c cs)
  else cutSymbol mode c cs

theorem length_skipGap_le (inComment : Bool) (place : Place) (cs : List Char) :
    (skipGap inComment place cs).2.length ≤ cs.length := by
  induction cs generalizing inComment place with
  | nil => simp [skipGap]
  | cons c cs ih =>
    unfold skipGap
    split
    · exact Nat.le_succ_of_le (ih _ _)
    · split
      · exact Nat.le_succ_of_le (ih _ _)
      · split
        · exact Nat.le_succ_of_le (ih _ _)
        · exact Nat.le_refl _

/-- The text that an attempt was made on. -/
def source : Except Halt Cut → List Char
  | .ok cut => cut.taken ++ cut.rest
  | .error halt => halt.taken ++ halt.rest

/-- A token takes a character at least; a failed attempt may have taken none. -/
def Advances : Except Halt Cut → Prop
  | .ok cut => cut.taken ≠ []
  | .error _ => True

theorem source_cutName (kind : Kind) (mode : Mode) (mark : Char) (cs : List Char) :
    source (.ok (cutName kind mode mark cs)) = mark :: cs := by
  simp [source, cutName]

theorem source_cutIdentifier (mode : Mode) (c : Char) (cs : List Char) :
    source (.ok (cutIdentifier mode c cs)) = c :: cs := by
  simp [source, cutIdentifier]

theorem source_cutHex (mode : Mode) (x : Char) (cs : List Char) :
    source (.ok (cutHex mode x cs)) = '0' :: x :: cs := by
  simp [source, cutHex]

theorem source_cutNumber (mode : Mode) (sign cs : List Char) :
    source (.ok (cutNumber mode sign cs)) = sign ++ cs := by
  have h := List.takeWhile_append_dropWhile (p := Char.isDigit) (l := cs)
  unfold cutNumber
  split
  · rename_i hd
    rw [hd] at h
    simp [source, h]
  · simp [source, h]

theorem source_cutString (mode : Mode) (cs : List Char) :
    source (cutString mode cs) = '"' :: cs := by
  have h := List.takeWhile_append_dropWhile (p := isStringBody) (l := cs)
  unfold cutString
  split
  · simp [source]
  · rename_i hd
    rw [hd] at h
    simp [source, h]

theorem splitNames_append (count : Nat) (cs : List Char) :
    (splitNames count cs).1.flatMap (· ++ ['.']) ++ (splitNames count cs).2 = cs := by
  induction count generalizing cs with
  | zero => simp [splitNames]
  | succ count ih =>
    have h := List.takeWhile_append_dropWhile (p := isWord) (l := cs)
    unfold splitNames
    simp only []
    split
    · rename_i rest hd
      rw [hd] at h
      split
      · simp
      · simpa [ih rest] using h
    · simp

theorem splitSign_append (cs : List Char) : (splitSign cs).1 ++ (splitSign cs).2 = cs := by
  unfold splitSign
  split <;> simp

theorem source_cutResourceId (mode : Mode) (cs : List Char) :
    source (cutResourceId mode cs) = '#' :: cs := by
  unfold cutResourceId
  split
  · simp [source]
  · simp [source]
  · have hnames := splitNames_append 2 cs
    have hsign := splitSign_append (splitNames 2 cs).2
    have hdigits := List.takeWhile_append_dropWhile (p := Char.isDigit)
      (l := (splitSign (splitNames 2 cs).2).2)
    simp only []
    split
    · simp [source, hsign, hnames]
    · simp [source, hsign, hnames]

theorem source_cutDollar (mode : Mode) (cs : List Char) :
    source (cutDollar mode cs) = '$' :: cs := by
  unfold cutDollar
  split
  · simp [source]
  · simp [source]
  · split
    · simp_all [source]
    · split
      · exact source_cutName _ _ _ _
      · simp [source]

theorem source_cutSymbol (mode : Mode) (c : Char) (cs : List Char) :
    source (cutSymbol mode c cs) = c :: cs := by
  unfold cutSymbol
  split
  · cases cs <;> simp_all [source]
  · split
    · cases cs <;> simp_all [source]
    · split
      · simp [source]
      · split
        · simp [source]
        · split <;> simp [source]

theorem hexAfterZero?_eq_some {x : Char} {cs digits : List Char}
    (h : hexAfterZero? cs = some (x, digits)) : cs = x :: digits := by
  unfold hexAfterZero? at h
  split at h
  · split at h
    · simp_all
    · simp at h
  · simp at h

/-- Nothing of the text is lost or made up, whether a token is cut off or not. -/
theorem source_cut (mode : Mode) (c : Char) (cs : List Char) :
    source (cut mode c cs) = c :: cs := by
  unfold cut
  split
  · subst c; exact source_cutName _ _ _ _
  split
  · subst c; exact source_cutString _ _
  split
  · subst c; exact source_cutResourceId _ _
  split
  · subst c; exact source_cutDollar _ _
  split
  · split
    · rename_i h
      split at h
      · rename_i hc
        rw [source_cutHex, hexAfterZero?_eq_some h, hc]
      · simp at h
    · exact source_cutNumber _ _ _
  split
  · rename_i h
    rw [source_cutNumber, h.1]
    rfl
  split
  · exact source_cutIdentifier _ _ _
  · exact source_cutSymbol _ _ _

theorem taken_cutNumber_ne_nil (mode : Mode) (sign : List Char) {cs : List Char}
    (h : sign ≠ [] ∨ cs.head?.any Char.isDigit = true) : (cutNumber mode sign cs).taken ≠ [] := by
  unfold cutNumber
  split
  · simp
  · rcases h with h | h
    · simp [h]
    · cases cs <;> simp_all

theorem advances_cut (mode : Mode) (c : Char) (cs : List Char) : Advances (cut mode c cs) := by
  unfold cut
  split
  · simp [Advances, cutName]
  split
  · unfold cutString
    split <;> simp [Advances]
  split
  · unfold cutResourceId
    split
    · simp [Advances]
    · simp [Advances]
    · simp only []
      split <;> simp [Advances]
  split
  · unfold cutDollar
    split
    · simp [Advances]
    · simp [Advances]
    · split
      · simp [Advances]
      · split <;> simp [Advances, cutName]
  split
  · rename_i hdigit
    split
    · simp [Advances, cutHex]
    · exact taken_cutNumber_ne_nil _ _ (.inr (by simpa using hdigit))
  split
  · exact taken_cutNumber_ne_nil _ _ (.inl (by simp))
  split
  · simp [Advances, cutIdentifier]
  · unfold cutSymbol
    repeat' split
    all_goals simp [Advances]

theorem length_rest_lt_of_cut {mode : Mode} {c : Char} {cs : List Char} {result : Cut}
    (h : cut mode c cs = .ok result) : result.rest.length < (c :: cs).length := by
  have hs := source_cut mode c cs
  have ha := advances_cut mode c cs
  rw [h] at hs ha
  have hpos : 0 < result.taken.length := List.length_pos_iff.2 ha
  rw [← hs]
  simp only [source, List.length_append]
  omega

end ResourceLang.Token.Scan
