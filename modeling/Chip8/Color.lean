import Chip8.Text.Digits

/-!
# Colors

Colors of three channels, a byte each.  A color is written as six hexadecimal digits
behind a number sign; a reader may leave the sign out and write a channel below
sixteen as a plus sign and one digit.
-/

set_option autoImplicit false

namespace Chip8

structure Color where
  red : UInt8
  green : UInt8
  blue : UInt8
  deriving DecidableEq

namespace Color

def black : Color := ⟨0, 0, 0⟩

def white : Color := ⟨255, 255, 255⟩

def phosphor : Color := ⟨0x00, 0xA7, 0x00⟩

def darkGray : Color := ⟨0x1A, 0x1A, 0x1A⟩

def channels (color : Color) : List UInt8 := [color.red, color.green, color.blue]

def toText (color : Color) : String :=
  "#" ++ String.join (color.channels.map fun channel => Text.hex 2 channel.toNat)

structure Malformed where
  text : String
  deriving DecidableEq

def Malformed.message (malformed : Malformed) : String :=
  "invalid color '" ++ malformed.text ++ "', expected #RRGGBB"

/-- The channel that two characters spell. -/
def channel? (high low : Char) : Option UInt8 := do
  let units ← Text.digitIn? 16 low
  if high = '+' then
    return UInt8.ofNat units
  else
    let sixteens ← Text.digitIn? 16 high
    return UInt8.ofNat (sixteens * 16 + units)

def ofDigits? : List Char → Option Color
  | [r₁, r₀, g₁, g₀, b₁, b₀] => do
      return ⟨← channel? r₁ r₀, ← channel? g₁ g₀, ← channel? b₁ b₀⟩
  | _ => none

def ofText (text : String) : Except Malformed Color :=
  let digits := match text.toList with
    | '#' :: rest => rest
    | all => all
  match ofDigits? digits with
  | some color => .ok color
  | none => .error ⟨text⟩

end Color

end Chip8
