import ResourceLang.Token.Scan

/-!
Which lexemes there are, how each is spelled and where it may stand. `Lexical` is the grammar of a
lexeme, `spelling` the text that stands for it, and `after?` says which kinds a mode admits and
which mode they leave.
-/

set_option autoImplicit false
set_option relaxedAutoImplicit false

namespace ResourceLang.Proofs.LexemeGrammar

open Token Token.Scan

/-- A run of word characters, at least one of them. -/
def IsWord (cs : List Char) : Prop := cs ≠ [] ∧ ∀ c ∈ cs, isWord c = true

def IsDigits (cs : List Char) : Prop := cs ≠ [] ∧ ∀ c ∈ cs, c.isDigit = true

/-- Digits, with or without a minus sign in front. -/
def IsDecimal (cs : List Char) : Prop :=
  IsDigits cs ∨ ∃ digits, cs = '-' :: digits ∧ IsDigits digits

def IsHexDigits (cs : List Char) : Prop := cs ≠ [] ∧ ∀ c ∈ cs, isHexDigit c = true

/-- The text of the kinds that have only one. -/
def symbolText? : Kind → Option String
  | .leftParen => some "("
  | .rightParen => some ")"
  | .leftBrace => some "\x7b"
  | .rightBrace => some "\x7d"
  | .leftBracket => some "["
  | .rightBracket => some "]"
  | .leftAngle => some "<"
  | .rightAngle => some ">"
  | .expressionOpen => some "$("
  | .expressionClose => some ")"
  | .comma => some ","
  | .dot => some "."
  | .pipe => some "|"
  | .slash => some "/"
  | .ampersand => some "&"
  | .colon => some ":"
  | .semicolon => some ";"
  | .plus => some "+"
  | .minus => some "-"
  | .star => some "*"
  | .equals => some "="
  | .caret => some "^"
  | .leftShift => some "<<"
  | .rightShift => some ">>"
  | .tilde => some "~"
  | .exclamation => some "!"
  | .integer | .percentage | .string | .resourceId | .identifier | .directive | .variableName =>
      none

/-- The lexemes that a text can spell. -/
inductive Lexical : Lexeme → Prop
  | directive {name : List Char} (hname : ∀ c ∈ name, isWord c = true) :
    Lexical (.plain .directive (String.ofList name))
  | variableName {name : List Char} (hname : IsWord name) :
    Lexical (.plain .variableName (String.ofList name))
  | identifier {first : Char} {name : List Char} (hfirst : isWordStart first = true)
      (hname : ∀ c ∈ name, isWord c = true) :
    Lexical (.plain .identifier (String.ofList (first :: name)))
  | integer {number : List Char} (hnumber : IsDecimal number) :
    Lexical (.plain .integer (String.ofList number))
  | hexadecimal {digits : List Char} (hdigits : IsHexDigits digits) :
    Lexical (.plain .integer (String.ofList ('0' :: 'x' :: digits)))
  | percentage {number : List Char} (hnumber : IsDecimal number) :
    Lexical (.plain .percentage (String.ofList number))
  | string {body : List Char} (hbody : '"' ∉ body) :
    Lexical (.plain .string (String.ofList body))
  | auto : Lexical (.plain .resourceId "auto")
  | resourceId {names : List (List Char)} {number : List Char} (hcount : names.length ≤ 2)
      (hnames : ∀ name ∈ names, IsWord name) (hnumber : IsDecimal number)
      (hauto : ¬ "auto".toList <+: (Lexeme.dotted .resourceId
        ((names ++ [number]).map String.ofList)).text.toList) :
    Lexical (.dotted .resourceId ((names ++ [number]).map String.ofList))
  | symbol {kind : Kind} {text : String} (htext : symbolText? kind = some text) :
    Lexical (.plain kind text)

/-- The characters of a text and the marks that its kind puts around them. -/
def marked : Kind → List Char → List Char
  | .directive, cs => '@' :: cs
  | .variableName, cs => '$' :: cs
  | .resourceId, cs => '#' :: cs
  | .string, cs => '"' :: cs ++ ['"']
  | .percentage, cs => cs ++ ['%']
  | _, cs => cs

/-- The characters that stand for a lexeme in a text. -/
def spelling (lexeme : Lexeme) : List Char := marked lexeme.kind lexeme.text.toList

/-- Characters that stand for a lexeme: its spelling, or that of a hexadecimal literal with a
capital `X`. -/
def Spells (lexeme : Lexeme) (cs : List Char) : Prop :=
  cs = spelling lexeme ∨
    ∃ digits, IsHexDigits digits ∧
      lexeme = .plain .integer (String.ofList ('0' :: 'x' :: digits)) ∧ cs = '0' :: 'X' :: digits

/-- The mode after a token of the kind, if one may stand in the mode. Expressions do not nest and
hold no variables, and their closing parenthesis is the first that nothing in them opened. -/
def after? : Mode → Kind → Option Mode
  | .outside, .expressionOpen => some (.inside 0)
  | .inside _, .expressionOpen => none
  | .inside _, .variableName => none
  | .outside, .expressionClose => none
  | .inside 0, .expressionClose => some .outside
  | .inside (_ + 1), .expressionClose => none
  | .inside depth, .leftParen => some (.inside (depth + 1))
  | .inside 0, .rightParen => none
  | .inside (depth + 1), .rightParen => some (.inside depth)
  | mode, _ => some mode

/-- The mode after tokens of the kinds, if each may stand where it does. -/
def afterAll? (mode : Mode) (kinds : List Kind) : Option Mode := kinds.foldlM after? mode

/-- The kinds whose place in an expression matters. -/
def modal : List Kind := [.leftParen, .rightParen, .expressionOpen, .expressionClose, .variableName]

theorem after?_eq_self {kind : Kind} (h : kind ∉ modal) (mode : Mode) :
    after? mode kind = some mode := by
  rcases mode with _ | _ | depth <;> cases kind <;> first | rfl | exact absurd (by decide) h

/-! ### Spellings -/

theorem spelling_plain (kind : Kind) (cs : List Char) :
    spelling (.plain kind (String.ofList cs)) = marked kind cs :=
  congrArg (marked kind) String.toList_ofList

/-- In the text of a lexeme with components every component but the last ends in a dot. -/
theorem toList_text_dotted (names : List (List Char)) (number : List Char) (kind : Kind) :
    (Lexeme.dotted kind ((names ++ [number]).map String.ofList)).text.toList =
      names.flatMap (· ++ ['.']) ++ number := by
  change (".".intercalate ((names ++ [number]).map String.ofList)).toList = _
  induction names with
  | nil => simp
  | cons name names ih =>
    have hne : (names ++ [number]).map String.ofList ≠ [] := by simp
    rw [List.cons_append, List.map_cons, String.intercalate_cons_of_ne_nil hne,
      String.toList_append, String.toList_append, ih, String.toList_ofList, List.flatMap_cons,
      List.append_assoc, List.append_assoc, List.append_assoc]
    rfl

theorem spelling_resourceId (names : List (List Char)) (number : List Char) :
    spelling (.dotted .resourceId ((names ++ [number]).map String.ofList)) =
      '#' :: (names.flatMap (· ++ ['.']) ++ number) := by
  rw [← toList_text_dotted names number .resourceId]
  rfl

theorem spelling_symbol {kind : Kind} {text : String} (htext : symbolText? kind = some text) :
    spelling (.plain kind text) = text.toList := by
  cases kind <;> first | rfl | cases htext

end ResourceLang.Proofs.LexemeGrammar
