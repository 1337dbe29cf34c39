import Chip8.Proofs.TextReading

/-!
# Hexadecimal spelling

The hexadecimal spelling of a number reads back as the number, with any zeros in front.  So no
two numbers are spelt alike, and a text that shows a number in hexadecimal tells which it is.
-/

set_option autoImplicit false

namespace Chip8.Text

def hexValue (digits : List Char) : Nat :=
  digits.foldl (fun value c => value * 16 + (digitIn? 16 c).getD 0) 0

theorem hexValue_concat (digits : List Char) (c : Char) :
    hexValue (digits ++ [c]) = hexValue digits * 16 + (digitIn? 16 c).getD 0 := by
  rw [hexValue, List.foldl_append]
  rfl

theorem hexValue_zeros (count : Nat) (digits : List Char) :
    hexValue (List.replicate count '0' ++ digits) = hexValue digits := by
  induction count with
  | zero => rfl
  | succ count ih =>
      rw [List.replicate_succ, List.cons_append, ← ih]
      rfl

theorem hexDigits_zero : hexDigits 0 = [] := by
  rw [hexDigits, if_pos rfl]

theorem hexDigits_of_pos {n : Nat} (positive : 0 < n) :
    hexDigits n = hexDigits (n / 16) ++ [hexDigit (n % 16)] := by
  rw [hexDigits, if_neg (Nat.pos_iff_ne_zero.mp positive)]

theorem hexValue_hexDigits (n : Nat) : hexValue (hexDigits n) = n := by
  induction n using Nat.strongRecOn with
  | ind n ih =>
      rcases Nat.eq_zero_or_pos n with rfl | positive
      · rw [hexDigits_zero]
        rfl
      · have fewer : n / 16 < n := Nat.div_lt_self positive (by decide)
        have units : n % 16 < 16 := Nat.mod_lt n (by decide)
        rw [hexDigits_of_pos positive, hexValue_concat, ih _ fewer, digitIn?_hexDigit units,
          Option.getD_some]
        exact Nat.div_add_mod' n 16

theorem hexValue_hex (width n : Nat) : hexValue (hex width n).toList = n := by
  rw [hex, String.toList_ofList, hexValue_zeros, hexValue_hexDigits]

theorem hex_inj {width m n : Nat} : hex width m = hex width n ↔ m = n := by
  constructor
  · intro same
    rw [← hexValue_hex width m, same, hexValue_hex]
  · exact congrArg (hex width)

/-- A byte is spelt with two digits. -/
theorem toList_hex_two {n : Nat} (small : n < 256) :
    (hex 2 n).toList = [hexDigit (n / 16), hexDigit (n % 16)] := by
  have one : ∀ k < 16,
      List.replicate (1 - (hexDigits k).length) '0' ++ hexDigits k = [hexDigit k] := by
    intro k single
    rcases Nat.eq_zero_or_pos k with rfl | positive
    · rw [hexDigits_zero]
      rfl
    · rw [hexDigits_of_pos positive, Nat.div_eq_of_lt single, Nat.mod_eq_of_lt single,
        hexDigits_zero]
      rfl
  have sixteens : n / 16 < 16 := by omega
  rw [hex, String.toList_ofList]
  rcases Nat.eq_zero_or_pos n with rfl | positive
  · rw [hexDigits_zero]
    rfl
  · rw [hexDigits_of_pos positive, List.length_append, List.length_singleton, ← List.append_assoc,
      Nat.add_sub_add_right 1 1, one _ sixteens]
    rfl

end Chip8.Text
