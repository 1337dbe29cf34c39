/-!
# Digits

Characters that stand for digits in a base of up to sixteen, and the hexadecimal
spelling of numbers.
-/

set_option autoImplicit false

namespace Chip8.Text

/-- The value of a digit or a Latin letter of either case, counted on from ten. -/
def digitValue? (c : Char) : Option Nat :=
  if '0' ≤ c ∧ c ≤ '9' then some (c.toNat - '0'.toNat)
  else if 'a' ≤ c ∧ c ≤ 'z' then some (c.toNat - 'a'.toNat + 10)
  else if 'A' ≤ c ∧ c ≤ 'Z' then some (c.toNat - 'A'.toNat + 10)
  else none

def digitIn? (base : Nat) (c : Char) : Option Nat :=
  (digitValue? c).filter (· < base)

/-- The hexadecimal digit of a number below sixteen, in upper case. -/
def hexDigit (n : Nat) : Char :=
  if n < 10 then Char.ofNat ('0'.toNat + n) else Char.ofNat ('A'.toNat + (n - 10))

/-- The hexadecimal digits of a number, the highest first, none for zero. -/
def hexDigits (n : Nat) : List Char :=
  if n = 0 then [] else hexDigits (n / 16) ++ [hexDigit (n % 16)]
  termination_by n
  decreasing_by omega

def hex (width : Nat) (n : Nat) : String :=
  let digits := hexDigits n
  String.ofList (List.replicate (width - digits.length) '0' ++ digits)

theorem digitIn?_hexDigit {n : Nat} (small : n < 16) : digitIn? 16 (hexDigit n) = some n := by
  have every : ∀ k : Fin 16, digitIn? 16 (hexDigit k) = some k.val := by decide
  exact every ⟨n, small⟩

end Chip8.Text
