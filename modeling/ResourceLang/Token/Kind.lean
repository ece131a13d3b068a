/-!
The kinds of token, and how tightly the operators among them bind.
-/

set_option autoImplicit false
set_option relaxedAutoImplicit false

namespace ResourceLang.Token

inductive Kind
  | leftParen
  | rightParen
  | leftBrace
  | rightBrace
  | leftBracket
  | rightBracket
  | leftAngle
  | rightAngle
  | expressionOpen
  | expressionClose
  | comma
  | dot
  | pipe
  | slash
  | ampersand
  | colon
  | semicolon
  | plus
  | minus
  | star
  | equals
  | caret
  | leftShift
  | rightShift
  | tilde
  | exclamation
  | integer
  | percentage
  | string
  | resourceId
  | identifier
  | directive
  | variableName
  deriving DecidableEq, Repr

inductive Associativity
  | left
  | right
  deriving DecidableEq, Repr

namespace Kind

/-- The name by which listings and messages call a kind. -/
def name : Kind → String
  | leftParen => "LParen"
  | rightParen => "RParen"
  | leftBrace => "LBrace"
  | rightBrace => "RBrace"
  | leftBracket => "LBracket"
  | rightBracket => "RBracket"
  | leftAngle => "LAngle"
  | rightAngle => "RAngle"
  | expressionOpen => "ExpressionOpen"
  | expressionClose => "ExpressionClose"
  | comma => "Comma"
  | dot => "Dot"
  | pipe => "Pipe"
  | slash => "Slash"
  | ampersand => "Amp"
  | colon => "Colon"
  | semicolon => "Semicolon"
  | plus => "Plus"
  | minus => "Minus"
  | star => "Star"
  | equals => "Equals"
  | caret => "Caret"
  | leftShift => "LeftShift"
  | rightShift => "RightShift"
  | tilde => "Tilde"
  | exclamation => "Exclaim"
  | integer => "Integer"
  | percentage => "Percentage"
  | string => "String"
  | resourceId => "ResourceId"
  | identifier => "Identifier"
  | directive => "Directive"
  | variableName => "Variable"

def all : List Kind :=
  [leftParen, rightParen, leftBrace, rightBrace, leftBracket, rightBracket, leftAngle, rightAngle,
    expressionOpen, expressionClose, comma, dot, pipe, slash, ampersand, colon, semicolon, plus,
    minus, star, equals, caret, leftShift, rightShift, tilde, exclamation, integer, percentage,
    string, resourceId, identifier, directive, variableName]

def ofName? (text : String) : Option Kind := all.find? fun kind ↦ kind.name = text

/-- How tightly a binary operator binds; nothing else has a rank. -/
def precedence? : Kind → Option Nat
  | plus | minus => some 2
  | star | slash => some 3
  | caret => some 4
  | leftShift | rightShift => some 5
  | pipe => some 6
  | ampersand => some 7
  | _ => none

def associativity : Kind → Associativity
  | caret => .right
  | _ => .left

def isOperator (kind : Kind) : Bool := kind.precedence?.isSome

def isLiteral : Kind → Bool
  | integer | percentage | string | resourceId | identifier => true
  | _ => false

/-- Whether tokens of this kind stand for a number that a slot may hold. -/
def isNumeric : Kind → Bool
  | integer | percentage | resourceId => true
  | _ => false

/-- Whether tokens of this kind stand for a text that a slot may hold. -/
def isTextual : Kind → Bool
  | string | identifier => true
  | _ => false

theorem mem_all (kind : Kind) : kind ∈ all := by cases kind <;> decide

end Kind

end ResourceLang.Token
