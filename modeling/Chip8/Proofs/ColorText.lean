import Chip8.Color
import Chip8.Proofs.Checked.Parts
import Chip8.Proofs.HexText

/-!
# What is read as a color

A color is written as six hexadecimal digits of either case, perhaps behind a number sign.  All
such texts are read, and a color's own text is that of its digits in upper case.  Each channel is
read as a number, though, and a number may begin with a plus sign: these are the texts that are
read besides, one digit short of a color in every channel that has the sign.
-/

set_option autoImplicit false

namespace Chip8

open Text (IsHexDigit digitIn? digitIn?_sixteen_iff hex hexDigit hexValue toList_hex_two)

namespace Color

/-! ## Channels -/

def IsHex (c : Char) : Prop := ∃ n, IsHexDigit c n

theorem isHex_iff {c : Char} : IsHex c ↔ (digitIn? 16 c).isSome = true := by
  rw [Option.isSome_iff_exists]
  exact exists_congr fun n => digitIn?_sixteen_iff.symm

theorem IsHex.ascii {c : Char} (digit : IsHex c) : c.toNat < 128 := by
  rw [isHex_iff] at digit
  rcases Nat.lt_or_ge c.toNat 128 with low | beyond
  · exact low
  · rw [digitIn?, Text.digitValue?_of_beyond beyond] at digit
    cases digit

theorem not_isHex_plus : ¬ IsHex '+' := by
  rw [isHex_iff]
  decide

theorem not_isHex_sign : ¬ IsHex '#' := by
  rw [isHex_iff]
  decide

/-- Two characters that are read as a channel: the second is a digit, the first is one or a plus
sign, which stands for nothing. -/
def Reads (high low : Char) (channel : UInt8) : Prop :=
  (IsHex high ∨ high = '+') ∧ IsHex low ∧ channel.toNat = hexValue [high, low]

theorem hexValue_pair (high low : Char) :
    hexValue [high, low] = (digitIn? 16 high).getD 0 * 16 + (digitIn? 16 low).getD 0 := by
  simp [hexValue]

theorem hexValue_of_digits {high low : Char} {sixteens units : Nat}
    (first : IsHexDigit high sixteens) (second : IsHexDigit low units) :
    hexValue [high, low] = sixteens * 16 + units := by
  rw [hexValue_pair, digitIn?_sixteen_iff.mpr first, digitIn?_sixteen_iff.mpr second]
  rfl

theorem hexValue_of_plus {low : Char} {units : Nat} (second : IsHexDigit low units) :
    hexValue ['+', low] = units := by
  rw [hexValue_pair, digitIn?_sixteen_iff.mpr second]
  exact Nat.zero_add units

theorem toNat_eq_iff {channel : UInt8} {n : Nat} (small : n < 256) :
    channel.toNat = n ↔ UInt8.ofNat n = channel := by
  constructor
  · rintro rfl
    exact UInt8.ofNat_toNat
  · rintro rfl
    exact UInt8.toNat_ofNat_of_lt' small

theorem channel?_eq_some_iff {high low : Char} {channel : UInt8} :
    channel? high low = some channel ↔ Reads high low channel := by
  unfold channel? Reads
  cases second : digitIn? 16 low with
  | none => simp [isHex_iff, second]
  | some units =>
      have unit := digitIn?_sixteen_iff.mp second
      have few : units < 16 := unit.1
      by_cases plus : high = '+'
      · subst plus
        have small : units < 256 := by omega
        simp [isHex_iff, second, hexValue_of_plus unit, toNat_eq_iff small]
      · cases first : digitIn? 16 high with
        | none => simp [isHex_iff, first, plus]
        | some sixteens =>
            have sixteen := digitIn?_sixteen_iff.mp first
            have small : sixteens * 16 + units < 256 := by
              have := sixteen.1
              omega
            simp [isHex_iff, first, second, plus, hexValue_of_digits sixteen unit,
              toNat_eq_iff small]

def rewritten (c : Char) : Char := if c = '+' then '0' else c.toUpper

theorem rewritten_of_isHexDigit {c : Char} {n : Nat} (digit : IsHexDigit c n) :
    rewritten c = hexDigit n := by
  have other : c ≠ '+' := by
    rintro rfl
    exact not_isHex_plus ⟨n, digit⟩
  rw [rewritten, if_neg other, digit.2]

theorem Reads.toList_hex {high low : Char} {channel : UInt8} (reads : Reads high low channel) :
    (hex 2 channel.toNat).toList = [rewritten high, rewritten low] := by
  have small : channel.toNat < 256 := channel.toNat_lt
  obtain ⟨⟨sixteens, first⟩ | rfl, ⟨units, second⟩, value⟩ := reads
  · have few : units < 16 := second.1
    have value : channel.toNat = sixteens * 16 + units := by
      rw [value, hexValue_of_digits first second]
    have quotient : channel.toNat / 16 = sixteens := by omega
    have remainder : channel.toNat % 16 = units := by omega
    rw [toList_hex_two small, quotient, remainder, rewritten_of_isHexDigit first,
      rewritten_of_isHexDigit second]
  · have few : units < 16 := second.1
    have value : channel.toNat = units := by
      rw [value, hexValue_of_plus second]
    have quotient : channel.toNat / 16 = 0 := by omega
    have remainder : channel.toNat % 16 = units := by omega
    rw [toList_hex_two small, quotient, remainder, rewritten_of_isHexDigit second]
    rfl

/-! ## Texts -/

def Marked (text digits : List Char) : Prop := text = digits ∨ text = '#' :: digits

theorem Marked.mem_iff {text digits : List Char} (marked : Marked text digits) {c : Char}
    (other : c ≠ '#') : c ∈ text ↔ c ∈ digits := by
  rcases marked with rfl | rfl
  · rfl
  · rw [List.mem_cons, or_iff_right other]

inductive InPairs : List Char → Color → Prop where
  | intro {r₁ r₀ g₁ g₀ b₁ b₀ : Char} {color : Color} (red : Reads r₁ r₀ color.red)
      (green : Reads g₁ g₀ color.green) (blue : Reads b₁ b₀ color.blue) :
      InPairs [r₁, r₀, g₁, g₀, b₁, b₀] color

theorem ofDigits?_eq_some_iff {digits : List Char} {color : Color} :
    ofDigits? digits = some color ↔ InPairs digits color := by
  constructor
  · intro read
    unfold ofDigits? at read
    split at read
    · rename_i r₁ r₀ g₁ g₀ b₁ b₀
      obtain ⟨red, isRed, read⟩ := Option.bind_eq_some_iff.mp read
      obtain ⟨green, isGreen, read⟩ := Option.bind_eq_some_iff.mp read
      obtain ⟨blue, isBlue, read⟩ := Option.bind_eq_some_iff.mp read
      cases read
      exact ⟨channel?_eq_some_iff.mp isRed, channel?_eq_some_iff.mp isGreen,
        channel?_eq_some_iff.mp isBlue⟩
    · cases read
  · rintro ⟨red, green, blue⟩
    simp [ofDigits?, channel?_eq_some_iff.mpr red, channel?_eq_some_iff.mpr green,
      channel?_eq_some_iff.mpr blue]

def unmarked (text : List Char) : List Char :=
  if text.head? = some '#' then text.tail else text

theorem ofText_eq (text : String) :
    ofText text = (ofDigits? (unmarked text.toList)).elim (.error ⟨text⟩) .ok := by
  unfold ofText
  cases text.toList with
  | nil => rfl
  | cons c rest =>
      by_cases sign : c = '#'
      · cases read : ofDigits? rest <;> simp [unmarked, sign, read]
      · cases read : ofDigits? (c :: rest) <;> simp [unmarked, sign, read]

theorem marked_unmarked (text : List Char) : Marked text (unmarked text) := by
  cases text with
  | nil => exact .inl rfl
  | cons c rest =>
      by_cases sign : c = '#'
      · subst sign
        exact .inr rfl
      · simp [Marked, unmarked, sign]

theorem unmarked_of_marked {text digits : List Char} (marked : Marked text digits)
    (plain : digits.head? ≠ some '#') : unmarked text = digits := by
  rcases marked with rfl | rfl
  · exact if_neg plain
  · rfl

theorem InPairs.plain {digits : List Char} {color : Color} (pairs : InPairs digits color) :
    digits.head? ≠ some '#' := by
  obtain ⟨red, _, _⟩ := pairs
  intro sign
  cases sign
  exact red.1.elim not_isHex_sign nofun

theorem ofText_eq_ok_iff {text : String} {color : Color} :
    ofText text = .ok color ↔ ∃ digits, Marked text.toList digits ∧ InPairs digits color := by
  have found : ofText text = .ok color ↔ InPairs (unmarked text.toList) color := by
    rw [ofText_eq, ← ofDigits?_eq_some_iff]
    cases ofDigits? (unmarked text.toList) <;> simp
  rw [found]
  constructor
  · intro pairs
    exact ⟨_, marked_unmarked text.toList, pairs⟩
  · rintro ⟨digits, marked, pairs⟩
    rw [unmarked_of_marked marked pairs.plain]
    exact pairs

theorem InPairs.toList_toText {digits : List Char} {color : Color} (pairs : InPairs digits color) :
    color.toText.toList = '#' :: digits.map rewritten := by
  obtain ⟨red, green, blue⟩ := pairs
  simp [toText, channels, String.join, red.toList_hex, green.toList_hex, blue.toList_hex]

theorem InPairs.length_eq {digits : List Char} {color : Color} (pairs : InPairs digits color) :
    digits.length = 6 := by
  cases pairs
  rfl

theorem InPairs.isHex_or_plus {digits : List Char} {color : Color} (pairs : InPairs digits color) :
    ∀ c ∈ digits, IsHex c ∨ c = '+' := by
  obtain ⟨red, green, blue⟩ := pairs
  simp only [List.forall_mem_cons]
  exact ⟨red.1, .inl red.2.1, green.1, .inl green.2.1, blue.1, .inl blue.2.1,
    List.forall_mem_nil _⟩

theorem InPairs.ascii {digits : List Char} {color : Color} (pairs : InPairs digits color) :
    ∀ c ∈ digits, c.toNat < 128 := by
  intro c member
  rcases pairs.isHex_or_plus c member with digit | rfl
  · exact digit.ascii
  · decide

theorem exists_pair {digits : List Char} {n : Nat} (long : digits.length = n + 2) :
    ∃ high low rest, digits = high :: low :: rest ∧ rest.length = n := by
  obtain ⟨high, tail, rfl⟩ := List.exists_cons_of_length_eq_add_one long
  obtain ⟨low, rest, rfl⟩ := List.exists_cons_of_length_eq_add_one (Nat.succ.inj long)
  exact ⟨high, low, rest, rfl, Nat.succ.inj (Nat.succ.inj long)⟩

theorem exists_pairs {digits : List Char} (six : digits.length = 6) :
    ∃ r₁ r₀ g₁ g₀ b₁ b₀, digits = [r₁, r₀, g₁, g₀, b₁, b₀] := by
  obtain ⟨r₁, r₀, rest, rfl, four⟩ := exists_pair six
  obtain ⟨g₁, g₀, rest, rfl, two⟩ := exists_pair four
  obtain ⟨b₁, b₀, rest, rfl, ended⟩ := exists_pair two
  obtain rfl := List.eq_nil_of_length_eq_zero ended
  exact ⟨r₁, r₀, g₁, g₀, b₁, b₀, rfl⟩

theorem exists_reads {high low : Char} (first : IsHex high) (second : IsHex low) :
    ∃ channel, Reads high low channel := by
  obtain ⟨sixteens, first⟩ := first
  obtain ⟨units, second⟩ := second
  have small : sixteens * 16 + units < 256 := by
    have := first.1
    have := second.1
    omega
  refine ⟨UInt8.ofNat (sixteens * 16 + units), .inl ⟨_, first⟩, ⟨_, second⟩, ?_⟩
  rw [hexValue_of_digits first second]
  exact UInt8.toNat_ofNat_of_lt' small

/-- Of the texts that are read, those without a plus sign are the ones with six digits. -/
theorem exists_inPairs_iff {digits : List Char} :
    (∃ color, InPairs digits color) ∧ '+' ∉ digits ↔
      digits.length = 6 ∧ ∀ c ∈ digits, IsHex c := by
  constructor
  · rintro ⟨⟨color, pairs⟩, noPlus⟩
    refine ⟨pairs.length_eq, ?_⟩
    intro c member
    rcases pairs.isHex_or_plus c member with digit | rfl
    · exact digit
    · exact absurd member noPlus
  · rintro ⟨six, digit⟩
    refine ⟨?_, fun plus => not_isHex_plus (digit '+' plus)⟩
    obtain ⟨r₁, r₀, g₁, g₀, b₁, b₀, rfl⟩ := exists_pairs six
    obtain ⟨red, isRed⟩ := exists_reads (digit r₁ (by simp)) (digit r₀ (by simp))
    obtain ⟨green, isGreen⟩ := exists_reads (digit g₁ (by simp)) (digit g₀ (by simp))
    obtain ⟨blue, isBlue⟩ := exists_reads (digit b₁ (by simp)) (digit b₀ (by simp))
    exact ⟨⟨red, green, blue⟩, isRed, isGreen, isBlue⟩

theorem ofText_toText (color : Color) : ofText color.toText = .ok color := by
  have read : ∀ channel : UInt8, Reads (hexDigit (channel.toNat / 16))
      (hexDigit (channel.toNat % 16)) channel := by
    intro channel
    have small : channel.toNat < 256 := channel.toNat_lt
    have first : IsHexDigit (hexDigit (channel.toNat / 16)) (channel.toNat / 16) :=
      digitIn?_sixteen_iff.mp (Text.digitIn?_hexDigit (by omega))
    have second : IsHexDigit (hexDigit (channel.toNat % 16)) (channel.toNat % 16) :=
      digitIn?_sixteen_iff.mp (Text.digitIn?_hexDigit (Nat.mod_lt _ (by decide)))
    refine ⟨.inl ⟨_, first⟩, ⟨_, second⟩, ?_⟩
    rw [hexValue_of_digits first second, Nat.div_add_mod']
  refine ofText_eq_ok_iff.mpr ⟨_, .inr ?_, ⟨read color.red, read color.green, read color.blue⟩⟩
  simp [toText, channels, String.join, toList_hex_two (UInt8.toNat_lt _)]

end Color

/-! ## Slices

The same text read by slices of its bytes: none of them ends inside of a character. -/

namespace Checked

def byteLength : List Char → Nat
  | [] => 0
  | c :: rest => c.utf8Size + byteLength rest

/-- A text in two parts, the first of so many bytes. -/
def cut : Nat → List Char → Option (List Char × List Char)
  | bytes, [] => if bytes = 0 then some ([], []) else none
  | bytes, c :: rest =>
      if bytes = 0 then some ([], c :: rest)
      else do
        let (front, back) ← cut (← sub bytes c.utf8Size) rest
        return (c :: front, back)

def sliceText (text : List Char) (start stop : Nat) : Option (List Char) := do
  let (_, rest) ← cut start text
  let (middle, _) ← cut (← sub stop start) rest
  return middle

def readByte (text : List Char) : Option UInt8 := do
  let digits := if text.head? = some '+' then text.tail else text
  if digits = [] then
    none
  else
    let value ← digits.foldlM (fun value c => do fit 8 (value * 16 + (← Text.digitIn? 16 c))) 0
    return UInt8.ofNat value

def colorOfText (text : String) : Option (Except Color.Malformed Color) := do
  let digits := Color.unmarked text.toList
  if byteLength digits = 6 ∧ digits.all (fun c => c.toNat < 128) then
    let some red := readByte (← sliceText digits 0 2) | return .error ⟨text⟩
    let some green := readByte (← sliceText digits 2 4) | return .error ⟨text⟩
    let some blue := readByte (← sliceText digits 4 6) | return .error ⟨text⟩
    return .ok ⟨red, green, blue⟩
  else
    return .error ⟨text⟩

theorem readByte_pair (high low : Char) : readByte [high, low] = Color.channel? high low := by
  have digit : ∀ {c n}, digitIn? 16 c = some n → n < 16 :=
    fun read => (digitIn?_sixteen_iff.mp read).1
  by_cases plus : high = '+'
  · cases second : digitIn? 16 low with
    | none => simp [readByte, Color.channel?, plus, second]
    | some units =>
        have small : units < 2 ^ 8 := by
          have := digit second
          omega
        simp [readByte, Color.channel?, plus, second, fit_eq small]
  · cases first : digitIn? 16 high with
    | none => simp [readByte, Color.channel?, plus, first]
    | some sixteens =>
        cases second : digitIn? 16 low with
        | none => simp [readByte, Color.channel?, plus, first, second]
        | some units =>
            have small : sixteens < 2 ^ 8 := by
              have := digit first
              omega
            have whole : sixteens * 16 + units < 2 ^ 8 := by
              have := digit first
              have := digit second
              omega
            simp [readByte, Color.channel?, plus, first, second, fit_eq small, fit_eq whole]

theorem utf8Size_of_lt {c : Char} (ascii : c.toNat < 128) : c.utf8Size = 1 :=
  Char.utf8Size_eq_one_iff.mpr (UInt32.le_iff_toNat_le.mpr (Nat.le_of_lt_succ ascii))

theorem byteLength_eq {text : List Char} (ascii : ∀ c ∈ text, c.toNat < 128) :
    byteLength text = text.length := by
  induction text with
  | nil => rfl
  | cons c rest ih =>
      obtain ⟨first, others⟩ := List.forall_mem_cons.mp ascii
      rw [byteLength, utf8Size_of_lt first, ih others, List.length_cons, Nat.add_comm]

theorem cut_append {front : List Char} (ascii : ∀ c ∈ front, c.toNat < 128) (back : List Char) :
    cut front.length (front ++ back) = some (front, back) := by
  induction front with
  | nil => cases back <;> rfl
  | cons c front ih =>
      obtain ⟨first, others⟩ := List.forall_mem_cons.mp ascii
      have covered : 1 ≤ front.length + 1 := Nat.le_add_left 1 _
      simp [cut, utf8Size_of_lt first, sub_eq covered, ih others]

theorem sliceText_append (before middle after : List Char)
    (ascii : ∀ c ∈ before ++ middle, c.toNat < 128) :
    sliceText (before ++ (middle ++ after)) before.length (before.length + middle.length) =
      some middle := by
  obtain ⟨first, second⟩ := List.forall_mem_append.mp ascii
  simp [sliceText, cut_append first, cut_append second, sub_eq]

/-- The digits are cut into pairs, since each of them is one byte long. -/
theorem colorOfText_eq (text : String) : colorOfText text = some (Color.ofText text) := by
  rw [Color.ofText_eq, colorOfText]
  generalize Color.unmarked text.toList = digits
  by_cases whole : byteLength digits = 6 ∧ digits.all (fun c => c.toNat < 128) = true
  · rw [if_pos whole]
    obtain ⟨six, isAscii⟩ := whole
    have ascii : ∀ c ∈ digits, c.toNat < 128 := by simpa using isAscii
    rw [byteLength_eq ascii] at six
    obtain ⟨r₁, r₀, g₁, g₀, b₁, b₀, rfl⟩ := Color.exists_pairs six
    have part : ∀ shown ⊆ [r₁, r₀, g₁, g₀, b₁, b₀], ∀ c ∈ shown, c.toNat < 128 :=
      fun shown inside c member => ascii c (inside member)
    have reds : sliceText [r₁, r₀, g₁, g₀, b₁, b₀] 0 2 = some [r₁, r₀] :=
      sliceText_append [] [r₁, r₀] [g₁, g₀, b₁, b₀] (part _ (by simp))
    have greens : sliceText [r₁, r₀, g₁, g₀, b₁, b₀] 2 4 = some [g₁, g₀] :=
      sliceText_append [r₁, r₀] [g₁, g₀] [b₁, b₀] (part _ (by simp))
    have blues : sliceText [r₁, r₀, g₁, g₀, b₁, b₀] 4 6 = some [b₁, b₀] :=
      sliceText_append [r₁, r₀, g₁, g₀] [b₁, b₀] [] (part _ (by simp))
    -- The slices are read one after the other until one of them is refused.
    simp only [reds, greens, blues, Option.bind_eq_bind, Option.bind_some, readByte_pair,
      Color.ofDigits?]
    cases Color.channel? r₁ r₀ with
    | none => rfl
    | some red =>
        cases Color.channel? g₁ g₀ with
        | none => rfl
        | some green => cases Color.channel? b₁ b₀ <;> rfl
  · have refused : Color.ofDigits? digits = none := by
      cases read : Color.ofDigits? digits with
      | none => rfl
      | some color =>
          have pairs := Color.ofDigits?_eq_some_iff.mp read
          have ascii := pairs.ascii
          refine absurd ⟨?_, ?_⟩ whole
          · rw [byteLength_eq ascii, pairs.length_eq]
          · simpa using ascii
    rw [refused, if_neg whole]
    rfl

end Checked

namespace Color

/-- What is read as a color, and how it is written again.  A text is read just if it is three
pairs of characters, perhaps behind a number sign; those of them that have no plus sign are the
texts of six digits.  A color that was read is written with the same digits, in upper case, and
a zero for a plus sign; a text that is refused is told as it is, and no slice of one fails. -/
theorem color_texts_exact (text : String) :
    (∀ color, ofText text = .ok color ↔
      ∃ digits, Marked text.toList digits ∧ InPairs digits color) ∧
    ((∃ color, ofText text = .ok color) ∧ '+' ∉ text.toList ↔
      ∃ digits, Marked text.toList digits ∧ digits.length = 6 ∧ ∀ c ∈ digits, IsHex c) ∧
    (∀ color, ofText text = .ok color → ∃ digits, Marked text.toList digits ∧
      color.toText.toList = '#' :: digits.map rewritten) ∧
    (∀ color, ofText color.toText = .ok color) ∧
    (∀ malformed, ofText text = .error malformed →
      malformed.text = text ∧
        malformed.message = "invalid color '" ++ text ++ "', expected #RRGGBB") ∧
    Checked.colorOfText text = some (ofText text) := by
  refine ⟨fun color => ofText_eq_ok_iff, ?_, ?_, ofText_toText, ?_, Checked.colorOfText_eq text⟩
  · simp only [ofText_eq_ok_iff, ← exists_inPairs_iff]
    have plus : '+' ≠ '#' := by decide
    constructor
    · rintro ⟨⟨color, digits, marked, pairs⟩, noPlus⟩
      exact ⟨digits, marked, ⟨color, pairs⟩, (marked.mem_iff plus).not.mp noPlus⟩
    · rintro ⟨digits, marked, ⟨color, pairs⟩, noPlus⟩
      exact ⟨⟨color, digits, marked, pairs⟩, (marked.mem_iff plus).not.mpr noPlus⟩
  · intro color read
    obtain ⟨digits, marked, pairs⟩ := ofText_eq_ok_iff.mp read
    exact ⟨digits, marked, pairs.toList_toText⟩
  · intro malformed refused
    rw [ofText_eq] at refused
    cases read : ofDigits? (unmarked text.toList) with
    | some color =>
        rw [read] at refused
        cases refused
    | none =>
        rw [read] at refused
        cases refused
        exact ⟨rfl, rfl⟩

/-- A text of six digits in both cases and a text of five. -/
theorem color_texts_exact_both_cases :
    ofText "1a1a1A" = .ok darkGray ∧
      (∃ digits, Marked "1a1a1A".toList digits ∧ digits.length = 6 ∧ ∀ c ∈ digits, IsHex c) ∧
      (∃ digits, Marked "1a1a1A".toList digits ∧
        darkGray.toText.toList = '#' :: digits.map rewritten) ∧
      ∃ malformed, ofText "#00A70" = .error malformed ∧ malformed.text = "#00A70" := by
  have read : ofText "1a1a1A" = .ok darkGray := by decide
  have refused : ofText "#00A70" = .error ⟨"#00A70"⟩ := by decide
  obtain ⟨_, documented, written, _⟩ := color_texts_exact "1a1a1A"
  obtain ⟨_, _, _, _, told, _⟩ := color_texts_exact "#00A70"
  exact ⟨read, documented.mp ⟨⟨darkGray, read⟩, by decide⟩, written darkGray read,
    _, refused, (told _ refused).1⟩

/-- Three digits with a plus sign before each are read as a color. -/
theorem color_of_plus_signs :
    ofText "+1+2+3" = .ok ⟨1, 2, 3⟩ ∧
      ¬ ∃ digits, Marked "+1+2+3".toList digits ∧ digits.length = 6 ∧ ∀ c ∈ digits, IsHex c := by
  refine ⟨by decide, ?_⟩
  rintro ⟨digits, marked, _, digit⟩
  exact not_isHex_plus (digit '+' ((marked.mem_iff (by decide)).mp (by decide)))

end Color

end Chip8
