import ResourceLang.Resource.Basic

/-!
Tokens, values and resources as lines for people to read.
-/

set_option autoImplicit false
set_option relaxedAutoImplicit false

namespace ResourceLang

open Text

/-- The kind and the quoted text of a token, with its line and offset in front if `positions` asks
for them, and its components behind if there are several. -/
def Token.listing (token : Token) (positions : Bool) : String :=
  let place :=
    if positions then
      String.ofList ((toString token.place.line).toList.leftpad 4 ' ') ++ ":" ++
        String.ofList ((toString token.place.offset).toList.rightpad 3 ' ') ++ " "
    else ""
  let components :=
    if 1 < token.components.length then " " ++ Quoted.list token.components else ""
  place ++ token.kind.name ++ " " ++ Quoted.string token.text ++ components

/-- Numbers in decimal, data as one hexadecimal numeral, texts quoted. -/
def Value.listing : Value → String
  | unsigned _ n => toString n.toNat
  | signed _ n => toString n.toInt
  | rect edges =>
    s!"({edges.top.toInt}, {edges.left.toInt}, {edges.bottom.toInt}, {edges.right.toInt})"
  | string text _ => Quoted.string text
  | bytes data => "0x" ++ String.ofList (data.flatMap fun b ↦ Numeral.upperHex 2 b.toNat)

namespace Resource

def slotListing (resource : Resource) (slot : Slot) (index : Nat) : String :=
  let value := ((resource.valueAt? index).map Value.listing).getD "<unset>"
  s!"  {slot.name} {slot.type.mnemonic} = {value}\n"

/-- The code, id and name of a resource, and then a line for each slot in template order. -/
def listing (resource : Resource) : String :=
  s!"{resource.code} #{resource.id} {Quoted.string resource.name}\n" ++
    String.join (resource.template.slots.zipIdx.map fun (slot, index) ↦
      resource.slotListing slot index)

end Resource

end ResourceLang
