import Chip8.Text.Digits

/-!
# Decimal numerals

Reading whole numbers that have to fit a machine word.  A numeral is read from the
left; the first digit that is none, or that carries the value past its bound, decides
what is wrong with it.
-/

set_option autoImplicit false

namespace Chip8.Text

inductive NumeralError where
  | empty
  | invalidDigit
  | tooLarge
  | tooSmall
  deriving DecidableEq

def NumeralError.message : NumeralError → String
  | .empty => "cannot parse integer from empty string"
  | .invalidDigit => "invalid digit found in string"
  | .tooLarge => "number too large to fit in target type"
  | .tooSmall => "number too small to fit in target type"

/-- Read digits after a value already read.  The value may grow up to `bound`; past
that the error is `excess`. -/
def readDigits (bound : Nat) (excess : NumeralError) :
    Nat → List Char → Except NumeralError Nat
  | value, [] => .ok value
  | value, c :: rest =>
      match digitIn? 10 c with
      | none => .error .invalidDigit
      | some digit =>
          let value := value * 10 + digit
          if bound < value then .error excess else readDigits bound excess value rest

def readMagnitude (bound : Nat) (excess : NumeralError) : List Char → Except NumeralError Nat
  | [] => .error .invalidDigit
  | digits => readDigits bound excess 0 digits

/-- Read an unsigned number of at most `bound`; a plus sign may stand in front. -/
def readNat (bound : Nat) : List Char → Except NumeralError Nat
  | [] => .error .empty
  | '+' :: digits => readMagnitude bound .tooLarge digits
  | digits => readMagnitude bound .tooLarge digits

def maxWord : Nat := UInt64.size - 1

def readInt : List Char → Except NumeralError Int
  | [] => .error .empty
  | '-' :: digits => return -Int.ofNat (← readMagnitude (UInt64.size / 2) .tooSmall digits)
  | '+' :: digits => return Int.ofNat (← readMagnitude (UInt64.size / 2 - 1) .tooLarge digits)
  | digits => return Int.ofNat (← readMagnitude (UInt64.size / 2 - 1) .tooLarge digits)

end Chip8.Text
