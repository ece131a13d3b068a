import ResourceLang.Text.Numeral
import ResourceLang.Text.Printable

/-!
Texts and characters quoted so that every character can be seen. NUL, tab, line feed, carriage
return and the backslash have short escapes; other hidden characters, and combining ones that would
join a neighbour, are written by code point. Of the two quotation marks a form escapes those it
delimits with.
-/

set_option autoImplicit false
set_option relaxedAutoImplicit false

namespace ResourceLang.Text.Quoted

/-- What a form escapes besides the hidden characters. -/
structure Form where
  doubleQuote : Bool
  singleQuote : Bool
  combining : Bool

def codePoint (c : Char) : List Char :=
  ['\\', 'u', '\x7b'] ++ Numeral.hex 1 c.toNat ++ ['\x7d']

def escape (form : Form) (c : Char) : List Char :=
  if c = '\x00' then ['\\', '0']
  else if c = '\t' then ['\\', 't']
  else if c = '\r' then ['\\', 'r']
  else if c = '\n' then ['\\', 'n']
  else if c = '\\' then ['\\', '\\']
  else if c = '"' ∧ form.doubleQuote then ['\\', '"']
  else if c = '\x27' ∧ form.singleQuote then ['\\', '\x27']
  else if form.combining ∧ Printable.isCombining c then codePoint c
  else if Printable.isHidden c then codePoint c
  else [c]

/-- A text between double quotes; single quotes stay as they are. -/
def string (text : String) : String :=
  String.ofList ('"' :: text.toList.flatMap (escape ⟨true, false, true⟩) ++ ['"'])

/-- A character between single quotes; a double quote stays as it is. -/
def character (c : Char) : String :=
  String.ofList ('\x27' :: escape ⟨false, true, true⟩ c ++ ['\x27'])

/-- A text without quotes around it. Both marks are escaped, and a combining character only in
front, where it has nothing before it to join. -/
def bare (text : String) : String :=
  match text.toList with
  | [] => ""
  | c :: cs =>
    String.ofList (escape ⟨true, true, true⟩ c ++ cs.flatMap (escape ⟨true, true, false⟩))

/-- Quoted texts between brackets. -/
def list (texts : List String) : String :=
  "[" ++ ", ".intercalate (texts.map string) ++ "]"

end ResourceLang.Text.Quoted
