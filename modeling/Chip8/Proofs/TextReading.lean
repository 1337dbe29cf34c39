import Chip8.Text.Blank
import Chip8.Text.Numeral

/-!
# What trimming and reading numerals accept

Trimming a text leaves the one core that has blank characters around it and none at its own
ends.  A numeral is digits, at least one of them, with or without a plus sign; it is read if it
is one and its value is within the bound, and its digits may begin with zeros.
-/

set_option autoImplicit false

namespace Chip8.Text

/-! ## Trimming -/

def Blank (text : List Char) : Prop := ∀ c ∈ text, isBlank c = true

instance (text : List Char) : Decidable (Blank text) :=
  decidable_of_iff (text.all isBlank = true) List.all_eq_true

/-- A text is a core with white space around it, and the core begins and ends with none. -/
structure Trims (text core : List Char) : Prop where
  surrounded : ∃ left right, Blank left ∧ Blank right ∧ text = left ++ core ++ right
  first : ∀ c ∈ core.head?, isBlank c = false
  last : ∀ c ∈ core.getLast?, isBlank c = false

theorem blank_nil : Blank [] := List.forall_mem_nil _

theorem blank_takeWhile (text : List Char) : Blank (text.takeWhile isBlank) :=
  List.all_eq_true.mp List.all_takeWhile

theorem blank_reverse {text : List Char} : Blank text.reverse ↔ Blank text := by
  simp only [Blank, List.mem_reverse]

theorem isBlank_of_mem_head?_dropWhile {text : List Char} :
    ∀ c ∈ (text.dropWhile isBlank).head?, isBlank c = false := by
  intro c first
  have stops := List.head?_dropWhile_not isBlank text
  rw [Option.mem_def.mp first] at stops
  exact stops

theorem dropWhile_append_of_blank {left rest : List Char} (blank : Blank left)
    (first : ∀ c ∈ rest.head?, isBlank c = false) : (left ++ rest).dropWhile isBlank = rest := by
  rw [List.dropWhile_append_of_pos blank]
  cases rest with
  | nil => rfl
  | cons c rest => exact List.dropWhile_cons_of_neg (by simp [first c rfl])

theorem trims_trim (text : List Char) : Trims text (trim text) := by
  let middle := text.dropWhile isBlank
  have front : text.takeWhile isBlank ++ middle = text := List.takeWhile_append_dropWhile
  have back : trim text ++ (middle.reverse.takeWhile isBlank).reverse = middle := by
    rw [trim, ← List.reverse_append, List.takeWhile_append_dropWhile, List.reverse_reverse]
  have margin : Blank (middle.reverse.takeWhile isBlank).reverse :=
    blank_reverse.mpr (blank_takeWhile middle.reverse)
  refine ⟨⟨_, _, blank_takeWhile text, margin, ?_⟩, ?_, ?_⟩
  · rw [List.append_assoc, back, front]
  · -- A core that is left begins as what is left after the front is trimmed.
    intro c first
    have starts : c ∈ middle.head? := by
      rw [← back, List.head?_append, Option.mem_def.mp first]
      rfl
    exact isBlank_of_mem_head?_dropWhile c starts
  · intro c last
    rw [trim, List.getLast?_reverse] at last
    exact isBlank_of_mem_head?_dropWhile c last

theorem trim_of_trims {text core : List Char} (trims : Trims text core) : trim text = core := by
  obtain ⟨⟨left, right, blankLeft, blankRight, rfl⟩, first, last⟩ := trims
  cases core with
  | nil =>
      have blank : Blank (left ++ right) := List.forall_mem_append.mpr ⟨blankLeft, blankRight⟩
      have dropped : (left ++ right ++ []).dropWhile isBlank = [] :=
        dropWhile_append_of_blank blank nofun
      rw [List.append_nil] at dropped ⊢
      rw [trim, dropped]
      rfl
  | cons c core =>
      have turned : ∀ d ∈ (c :: core).reverse.head?, isBlank d = false := by
        rw [List.head?_reverse]
        exact last
      have front : (left ++ (c :: core ++ right)).dropWhile isBlank = c :: core ++ right :=
        dropWhile_append_of_blank blankLeft first
      rw [trim, List.append_assoc, front, List.reverse_append,
        dropWhile_append_of_blank (blank_reverse.mpr blankRight) turned, List.reverse_reverse]

theorem trim_eq_iff {text core : List Char} : trim text = core ↔ Trims text core :=
  ⟨fun same => same ▸ trims_trim text, trim_of_trims⟩

theorem trims_nil_iff {text : List Char} : Trims text [] ↔ Blank text := by
  constructor
  · rintro ⟨⟨left, right, blankLeft, blankRight, rfl⟩, -, -⟩
    rw [List.append_nil]
    exact List.forall_mem_append.mpr ⟨blankLeft, blankRight⟩
  · intro blank
    exact ⟨⟨text, [], blank, blank_nil, by simp⟩, nofun, nofun⟩

theorem trims_self {text : List Char} (visible : ∀ c ∈ text, isBlank c = false) :
    Trims text text :=
  ⟨⟨[], [], blank_nil, blank_nil, by simp⟩, fun c first => visible c (List.mem_of_mem_head? first),
    fun c last => visible c (List.mem_of_getLast? last)⟩

/-! White space outside of a text makes no difference to what is left of it. -/

theorem Trims.pad {text core left right : List Char} (trims : Trims text core) (front : Blank left)
    (back : Blank right) : Trims (left ++ text ++ right) core := by
  obtain ⟨⟨before, after, blankBefore, blankAfter, rfl⟩, first, last⟩ := trims
  refine ⟨⟨left ++ before, after ++ right, ?_, ?_, ?_⟩, first, last⟩
  · exact List.forall_mem_append.mpr ⟨front, blankBefore⟩
  · exact List.forall_mem_append.mpr ⟨blankAfter, back⟩
  · simp only [List.append_assoc]

theorem trim_pad {left right : List Char} (front : Blank left) (back : Blank right)
    (text : List Char) : trim (left ++ text ++ right) = trim text :=
  trim_of_trims ((trims_trim text).pad front back)

theorem exists_front (text : List Char) : ∃ left rest, Blank left ∧ text = left ++ rest ∧
    ∀ c ∈ rest.head?, isBlank c = false :=
  ⟨_, _, blank_takeWhile text, List.takeWhile_append_dropWhile.symm,
    isBlank_of_mem_head?_dropWhile⟩

theorem exists_back (text : List Char) : ∃ rest right, Blank right ∧ text = rest ++ right ∧
    ∀ c ∈ rest.getLast?, isBlank c = false := by
  obtain ⟨left, rest, blank, turned, first⟩ := exists_front text.reverse
  refine ⟨rest.reverse, left.reverse, blank_reverse.mpr blank, ?_, ?_⟩
  · rw [← List.reverse_append, ← turned, List.reverse_reverse]
  · rw [List.getLast?_reverse]
    exact first

/-- Trimming a text in which a visible character stands trims what is before and behind it at
its outer end. -/
theorem exists_trims_around (before after : List Char) {c : Char} (visible : isBlank c = false) :
    ∃ inner outer, Trims (before ++ c :: after) (inner ++ c :: outer) ∧
      trim inner = trim before ∧ trim outer = trim after ∧ ∀ d ∈ inner, d ∈ before := by
  obtain ⟨left, inner, front, rfl, first⟩ := exists_front before
  obtain ⟨outer, right, back, rfl, last⟩ := exists_back after
  refine ⟨inner, outer, ⟨⟨left, right, front, back, by simp⟩, ?_, ?_⟩, ?_, ?_, ?_⟩
  · intro d start
    rw [List.head?_append, Option.mem_def, Option.or_eq_some_iff] at start
    rcases start with leading | ⟨-, same⟩
    · exact first d leading
    · cases same
      exact visible
  · intro d finish
    rw [List.append_cons, List.getLast?_append, List.getLast?_concat, Option.mem_def,
      Option.or_eq_some_iff] at finish
    rcases finish with trailing | ⟨-, same⟩
    · exact last d trailing
    · cases same
      exact visible
  · have padded : trim (left ++ inner ++ []) = trim inner := trim_pad front blank_nil inner
    rw [← padded, List.append_nil]
  · have padded : trim ([] ++ outer ++ right) = trim outer := trim_pad blank_nil back outer
    rw [← padded, List.nil_append]
  · intro d member
    exact List.mem_append_right left member

/-! ## Digits

What a digit is worth is a table of the ASCII characters; no other character is one. -/

theorem cases_ascii {P : Char → Prop} (ascii : ∀ n : Fin 128, P (Char.ofNat n))
    (beyond : ∀ c : Char, 128 ≤ c.toNat → P c) (c : Char) : P c := by
  rcases Nat.lt_or_ge c.toNat 128 with low | high
  · have here := ascii ⟨c.toNat, low⟩
    rwa [Char.ofNat_toNat] at here
  · exact beyond c high

theorem not_le_of_beyond {c last : Char} (beyond : 128 ≤ c.toNat) (low : last.toNat < 128) :
    ¬ c.toNat ≤ last.toNat :=
  Nat.not_le.mpr (Nat.lt_of_lt_of_le low beyond)

theorem digitValue?_of_beyond {c : Char} (beyond : 128 ≤ c.toNat) : digitValue? c = none := by
  have past : ∀ last : Char, last.toNat < 128 → ¬ c ≤ last := fun _ => not_le_of_beyond beyond
  simp only [digitValue?, past '9' (by decide), past 'z' (by decide), past 'Z' (by decide),
    and_false, if_false]

theorem toUpper_of_beyond {c : Char} (beyond : 128 ≤ c.toNat) : c.toUpper = c :=
  dif_neg fun lower => not_le_of_beyond beyond (by decide) lower.2

theorem digitIn?_ten (c : Char) :
    digitIn? 10 c = if c.isDigit then some (c.toNat - '0'.toNat) else none := by
  induction c using cases_ascii with
  | ascii n =>
      revert n
      decide
  | beyond c beyond =>
      have noDigit : ¬ c.isDigit = true := by
        intro isDigit
        exact not_le_of_beyond beyond (by decide) (Char.isDigit_iff_toNat.mp isDigit).2
      rw [digitIn?, digitValue?_of_beyond beyond, if_neg noDigit]
      rfl

def IsHexDigit (c : Char) (n : Nat) : Prop := n < 16 ∧ c.toUpper = hexDigit n

theorem digitIn?_sixteen_iff {c : Char} {n : Nat} : digitIn? 16 c = some n ↔ IsHexDigit c n := by
  rcases Nat.lt_or_ge n 16 with small | large
  · rw [IsHexDigit, and_iff_right small]
    induction c using cases_ascii with
    | ascii code =>
        have table : ∀ (code : Fin 128) (n : Fin 16), digitIn? 16 (Char.ofNat code) = some n.val ↔
            (Char.ofNat code).toUpper = hexDigit n := by decide +kernel
        exact table code ⟨n, small⟩
    | beyond c beyond =>
        have other : c ≠ hexDigit n := by
          have low : ∀ n : Fin 16, (hexDigit n).toNat < 128 := by decide
          rintro rfl
          exact not_le_of_beyond beyond (low ⟨n, small⟩) (Nat.le_refl _)
        rw [digitIn?, digitValue?_of_beyond beyond, toUpper_of_beyond beyond]
        exact iff_of_false nofun other
  · have past : ¬ n < 16 := Nat.not_lt.mpr large
    simp only [IsHexDigit, past, false_and, digitIn?, Option.filter_eq_some_iff, decide_false,
      Bool.false_eq_true, and_false]

theorem isBlank_of_isHexDigit {c : Char} {n : Nat} (digit : IsHexDigit c n) :
    isBlank c = false := by
  rw [← digitIn?_sixteen_iff] at digit
  induction c using cases_ascii with
  | ascii code =>
      have table : ∀ code : Fin 128,
          (digitIn? 16 (Char.ofNat code)).isSome → isBlank (Char.ofNat code) = false := by decide
      exact table code (Option.isSome_of_eq_some digit)
  | beyond c beyond =>
      rw [digitIn?, digitValue?_of_beyond beyond] at digit
      cases digit

theorem isHexDigit_of_isDigit {c : Char} (isDigit : c.isDigit = true) :
    IsHexDigit c (c.toNat - '0'.toNat) := by
  have read := digitIn?_ten c
  rw [if_pos isDigit, digitIn?, Option.filter_eq_some_iff] at read
  rw [← digitIn?_sixteen_iff, digitIn?, Option.filter_eq_some_iff]
  refine ⟨read.1, ?_⟩
  have small := of_decide_eq_true read.2
  exact decide_eq_true (Nat.lt_trans small (by decide))

/-! ## Numerals -/

/-- Decimal digits of a number, at least one; the first may be zeros. -/
def IsDigits (digits : List Char) (n : Nat) : Prop :=
  digits ≠ [] ∧ (∀ c ∈ digits, c.isDigit = true) ∧ Nat.ofDigitChars 10 digits 0 = n

def IsNumeral (text : List Char) (n : Nat) : Prop :=
  ∃ digits, (text = digits ∨ text = '+' :: digits) ∧ IsDigits digits n

theorem isDigits_repr (n : Nat) : IsDigits n.repr.toList n := by
  rw [Nat.toList_repr]
  exact ⟨Nat.toDigits_ne_nil,
    fun _ member => Nat.isDigit_of_mem_toDigits (by decide) (by decide) member,
    Nat.ofDigitChars_toDigits (by decide) (by decide)⟩

theorem not_isDigits_sign {rest : List Char} {n : Nat} : ¬ IsDigits ('+' :: rest) n := by
  rintro ⟨-, digits, -⟩
  exact absurd (digits '+' List.mem_cons_self) (by decide)

theorem isNumeral_sign {digits : List Char} {n : Nat} :
    IsNumeral ('+' :: digits) n ↔ IsDigits digits n := by
  constructor
  · rintro ⟨_, rfl | same, digits⟩
    · exact absurd digits not_isDigits_sign
    · cases same
      exact digits
  · intro digits
    exact ⟨_, .inr rfl, digits⟩

theorem isNumeral_of_unsigned {text : List Char} {n : Nat} (unsigned : ∀ rest, text ≠ '+' :: rest) :
    IsNumeral text n ↔ IsDigits text n := by
  constructor
  · rintro ⟨_, rfl | same, digits⟩
    · exact digits
    · exact absurd same (unsigned _)
  · intro digits
    exact ⟨_, .inl rfl, digits⟩

theorem le_ofDigitChars (digits : List Char) (value : Nat) :
    value ≤ Nat.ofDigitChars 10 digits value := by
  induction digits generalizing value with
  | nil => exact Nat.le_refl value
  | cons c rest ih =>
      rw [Nat.ofDigitChars_cons]
      have further := ih (10 * value + (c.toNat - '0'.toNat))
      omega

theorem readDigits_eq_ok_iff {bound value n : Nat} {excess : NumeralError} {digits : List Char}
    (within : value ≤ bound) : readDigits bound excess value digits = .ok n ↔
      (∀ c ∈ digits, c.isDigit = true) ∧ Nat.ofDigitChars 10 digits value = n ∧ n ≤ bound := by
  induction digits generalizing value with
  | nil =>
      simp only [readDigits, Except.ok.injEq, List.not_mem_nil, false_implies, implies_true,
        true_and, Nat.ofDigitChars_nil]
      exact ⟨fun same => ⟨same, same ▸ within⟩, And.left⟩
  | cons c rest ih =>
      rw [List.forall_mem_cons, Nat.ofDigitChars_cons, readDigits, digitIn?_ten]
      by_cases isDigit : c.isDigit = true
      case neg => simp [isDigit]
      case pos =>
        rw [if_pos isDigit]
        dsimp only
        rw [Nat.mul_comm]
        split
        · -- More digits do not take a value back within its bound.
          rename_i past
          have further := le_ofDigitChars rest (10 * value + (c.toNat - '0'.toNat))
          refine iff_of_false nofun ?_
          rintro ⟨-, rfl, within⟩
          omega
        · rename_i fits
          rw [ih (Nat.not_lt.mp fits)]
          simp only [isDigit, true_and]

theorem readMagnitude_eq_ok_iff {bound n : Nat} {excess : NumeralError} {digits : List Char} :
    readMagnitude bound excess digits = .ok n ↔ IsDigits digits n ∧ n ≤ bound := by
  cases digits with
  | nil => exact iff_of_false nofun fun listed => listed.1.1 rfl
  | cons c rest =>
      rw [readMagnitude, readDigits_eq_ok_iff (Nat.zero_le bound), IsDigits, and_assoc, and_assoc]
      · exact (and_iff_right nofun).symm
      · nofun

theorem readNat_eq_ok_iff {bound n : Nat} {text : List Char} :
    readNat bound text = .ok n ↔ IsNumeral text n ∧ n ≤ bound := by
  unfold readNat
  split
  case h_1 =>
    have unsigned : ∀ rest : List Char, [] ≠ '+' :: rest := nofun
    rw [isNumeral_of_unsigned unsigned]
    exact iff_of_false nofun fun read => read.1.1 rfl
  case h_2 digits => rw [readMagnitude_eq_ok_iff, isNumeral_sign]
  case h_3 unsigned => rw [readMagnitude_eq_ok_iff, isNumeral_of_unsigned unsigned]

end Chip8.Text
