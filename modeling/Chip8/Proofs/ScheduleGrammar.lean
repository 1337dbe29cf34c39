import Chip8.Proofs.ScheduleMap
import Chip8.Proofs.TextReading

/-!
# The grammar of schedules

A schedule is read from the texts of a grammar and from no others: pieces with commas between
them, each of them blank or an entry that sets keys at a frame.  An entry is a numeral, the sign
`=` and hexadecimal digits, with white space around its two parts.  A text of the grammar is
read unless two of its entries have one frame, and then it is the finite map that its entries
list.  So the order of entries and digits makes no difference, nor do the case of digits, their
repetition, white space or further commas.
-/

set_option autoImplicit false

namespace Chip8.KeySchedule

open Text

/-! ## Keys -/

/-- Hexadecimal digits, in any order and perhaps repeated, of the keys of a set. -/
def SpellsKeys (digits : List Char) (keys : KeySet) : Prop :=
  (∀ c ∈ digits, ∃ key, IsHexDigit c key) ∧
    ∀ key, keys.contains key = true ↔ ∃ c ∈ digits, IsHexDigit c key

theorem readKeys_eq_ok_iff {digits : List Char} {held keys : KeySet} :
    readKeys held digits = .ok keys ↔ (∀ c ∈ digits, ∃ key, IsHexDigit c key) ∧
      ∀ key, keys.contains key = true ↔
        held.contains key = true ∨ ∃ c ∈ digits, IsHexDigit c key := by
  induction digits generalizing held with
  | nil =>
      simp only [readKeys, Except.ok.injEq, List.not_mem_nil, false_and, exists_false, or_false]
      constructor
      · rintro rfl
        exact ⟨fun _ absent => absent.elim, fun _ => Iff.rfl⟩
      · rintro ⟨-, same⟩
        exact KeySet.ext_contains fun key => (Bool.eq_iff_iff.mpr (same key)).symm
  | cons c rest ih =>
      rw [readKeys, List.forall_mem_cons]
      cases digit : digitIn? 16 c with
      | none =>
          refine iff_of_false nofun ?_
          rintro ⟨⟨⟨key, named⟩, -⟩, -⟩
          rw [digitIn?_sixteen_iff.mpr named] at digit
          cases digit
      | some key =>
          have named : ∀ other, IsHexDigit c other ↔ key = other := by
            intro other
            rw [← digitIn?_sixteen_iff, digit, Option.some_inj]
          have small : key < 16 := ((named key).mpr rfl).1
          have first : ∃ key, IsHexDigit c key := ⟨key, (named key).mpr rfl⟩
          rw [ih, and_iff_right first]
          refine and_congr_right fun _ => forall_congr' fun other => iff_congr Iff.rfl ?_
          simp only [KeySet.contains_insert, List.mem_cons, exists_eq_or_imp, named,
            Bool.or_eq_true, Bool.and_eq_true, decide_eq_true_eq, or_assoc]
          have same : other < 16 ∧ key = other ↔ key = other := by omega
          rw [same]

theorem readKeys_empty_eq_ok_iff {digits : List Char} {keys : KeySet} :
    readKeys ∅ digits = .ok keys ↔ SpellsKeys digits keys := by
  rw [readKeys_eq_ok_iff, SpellsKeys]
  simp

/-! ## Entries -/

def maxFrame : Nat := 18446744073709551615

/-- An entry: what is before its first `=`, trimmed, is the numeral of a frame, and what is
behind it, trimmed, spells the keys. -/
def IsEntry (entry : List Char) (frame : Nat) (keys : KeySet) : Prop :=
  ∃ before after numeral digits, entry = before ++ '=' :: after ∧ '=' ∉ before ∧
    Trims before numeral ∧ IsNumeral numeral frame ∧ frame ≤ maxFrame ∧
    Trims after digits ∧ SpellsKeys digits keys

theorem readEntry_of_missing {entry : List Char} (missing : '=' ∉ entry) :
    readEntry entry = .error (.missingEquals entry) := by
  have exhausted : (entry ++ []).dropWhile (· != '=') = [] := by
    refine List.dropWhile_append_of_pos fun c member => ?_
    exact bne_iff_ne.mpr fun same => missing (same ▸ member)
  rw [List.append_nil] at exhausted
  rw [readEntry, exhausted]

theorem readEntry_split {before after : List Char} (first : '=' ∉ before) :
    readEntry (before ++ '=' :: after) =
      match readNat maxWord (trim before) with
      | .error cause => .error (.badFrame (before ++ '=' :: after) cause)
      | .ok frame =>
          match readKeys ∅ (trim after) with
          | .error key => .error (.badKey (before ++ '=' :: after) key)
          | .ok keys => .ok (frame, keys) := by
  have other : ∀ c ∈ before, (c != '=') = true := by
    intro c member
    exact bne_iff_ne.mpr fun same => first (same ▸ member)
  rw [readEntry, List.dropWhile_append_of_pos other, List.takeWhile_append_of_pos other,
    List.takeWhile_cons_of_neg (by decide), List.append_nil]
  rfl

theorem readEntry_eq_ok_iff {entry : List Char} {frame : Nat} {keys : KeySet} :
    readEntry entry = .ok (frame, keys) ↔ IsEntry entry frame keys := by
  constructor
  · intro read
    by_cases equals : '=' ∈ entry
    case neg =>
      rw [readEntry_of_missing equals] at read
      cases read
    case pos =>
      obtain ⟨before, after, rfl, first⟩ := List.eq_append_cons_of_mem equals
      rw [readEntry_split first] at read
      split at read
      · cases read
      · rename_i number numeral
        split at read
        · cases read
        · rename_i held digits
          cases read
          obtain ⟨isNumeral, fits⟩ := readNat_eq_ok_iff.mp numeral
          exact ⟨before, after, _, _, rfl, first, trims_trim before, isNumeral, fits,
            trims_trim after, readKeys_empty_eq_ok_iff.mp digits⟩
  · rintro ⟨before, after, numeral, digits, rfl, first, trimsBefore, isNumeral, fits, trimsAfter,
      spells⟩
    have read : readNat maxWord numeral = .ok frame := readNat_eq_ok_iff.mpr ⟨isNumeral, fits⟩
    rw [readEntry_split first, trim_of_trims trimsBefore, trim_of_trims trimsAfter, read]
    dsimp only
    rw [readKeys_empty_eq_ok_iff.mpr spells]

/-! ## Texts -/

/-- What the pieces of a text set, in the order written: a blank piece nothing, every other one
the keys at a frame. -/
inductive SpellsPieces : List (List Char) → List (Nat × KeySet) → Prop
  | nil : SpellsPieces [] []
  | blank {piece : List Char} {rest : List (List Char)} {changes : List (Nat × KeySet)} :
      Trims piece [] → SpellsPieces rest changes → SpellsPieces (piece :: rest) changes
  | entry {piece entry : List Char} {frame : Nat} {keys : KeySet} {rest : List (List Char)}
      {changes : List (Nat × KeySet)} :
      Trims piece entry → IsEntry entry frame keys → SpellsPieces rest changes →
        SpellsPieces (piece :: rest) ((frame, keys) :: changes)

def Spells (text : String) (changes : List (Nat × KeySet)) : Prop :=
  SpellsPieces (text.toList.splitOn ',') changes

theorem pieces_eq_splitOn (text : List Char) : pieces text = text.splitOn ',' := by
  induction text with
  | nil => rfl
  | cons c rest ih =>
      rw [List.splitOn_cons_eq_if_modifyHead, ← ih]
      by_cases comma : c = ','
      · subst comma
        rfl
      · rw [if_neg (by simpa using comma), pieces]
        · cases others : pieces rest with
          | nil => exact absurd (ih ▸ others) (List.splitOn_ne_nil ',' rest)
          | cons piece others => rfl
        · exact comma

def entriesOf (pieces : List (List Char)) : List (List Char) :=
  (pieces.map trim).filter fun entry => !entry.isEmpty

theorem entries_eq (text : List Char) : entries text = entriesOf (text.splitOn ',') := by
  rw [entries, pieces_eq_splitOn]
  rfl

theorem entriesOf_cons_of_blank {piece : List Char} (blank : Trims piece [])
    (rest : List (List Char)) : entriesOf (piece :: rest) = entriesOf rest := by
  rw [entriesOf, List.map_cons, trim_of_trims blank]
  rfl

theorem entriesOf_cons_of_trims {piece entry : List Char} (trims : Trims piece entry)
    (visible : entry ≠ []) (rest : List (List Char)) :
    entriesOf (piece :: rest) = entry :: entriesOf rest := by
  rw [entriesOf, List.map_cons, trim_of_trims trims,
    List.filter_cons_of_pos (by simpa using visible)]
  rfl

theorem IsEntry.ne_nil {entry : List Char} {frame : Nat} {keys : KeySet}
    (isEntry : IsEntry entry frame keys) : entry ≠ [] := by
  obtain ⟨before, after, numeral, digits, rfl, -⟩ := isEntry
  simp

theorem read_of_spellsPieces {pieces : List (List Char)} {changes : List (Nat × KeySet)}
    (spells : SpellsPieces pieces changes) :
    (entriesOf pieces).map readEntry = changes.map .ok := by
  induction spells with
  | nil => rfl
  | blank blank _ ih => rw [entriesOf_cons_of_blank blank, ih]
  | entry trims isEntry _ ih =>
      rw [entriesOf_cons_of_trims trims isEntry.ne_nil, List.map_cons, List.map_cons, ih,
        readEntry_eq_ok_iff.mpr isEntry]

theorem spellsPieces_of_read {pieces : List (List Char)} {changes : List (Nat × KeySet)}
    (read : (entriesOf pieces).map readEntry = changes.map .ok) : SpellsPieces pieces changes := by
  induction pieces generalizing changes with
  | nil =>
      cases List.map_eq_nil_iff.mp read.symm
      exact .nil
  | cons piece rest ih =>
      have trims := trims_trim piece
      by_cases blank : trim piece = []
      · rw [blank] at trims
        rw [entriesOf_cons_of_blank trims] at read
        exact .blank trims (ih read)
      · rw [entriesOf_cons_of_trims trims blank, List.map_cons] at read
        obtain ⟨⟨frame, keys⟩, later, rfl, first, others⟩ := List.map_eq_cons_iff.mp read.symm
        exact .entry trims (readEntry_eq_ok_iff.mp first.symm) (ih others.symm)

theorem spellsPieces_iff {pieces : List (List Char)} {changes : List (Nat × KeySet)} :
    SpellsPieces pieces changes ↔ (entriesOf pieces).map readEntry = changes.map .ok :=
  ⟨read_of_spellsPieces, spellsPieces_of_read⟩

theorem spells_iff {text : String} {changes : List (Nat × KeySet)} :
    Spells text changes ↔ (entries text.toList).map readEntry = changes.map .ok := by
  rw [Spells, spellsPieces_iff, entries_eq]

theorem Spells.unique {text : String} {changes others : List (Nat × KeySet)}
    (spells : Spells text changes) (spellsOthers : Spells text others) : changes = others := by
  have same : changes.map Except.ok = others.map Except.ok :=
    (spells_iff.mp spells).symm.trans (spells_iff.mp spellsOthers)
  exact (List.map_inj_right fun _ _ => Except.ok.inj).mp same

theorem exists_read_iff {texts : List (List Char)} {changes : List (Nat × KeySet)}
    (read : texts.map readEntry = changes.map .ok) {change : Nat × KeySet} :
    (∃ entry ∈ texts, readEntry entry = .ok change) ↔ change ∈ changes := by
  rw [← List.mem_map, read]
  simp

theorem Spells.sets_iff {text : String} {changes : List (Nat × KeySet)}
    (spells : Spells text changes) {frame : Nat} {keys : KeySet} :
    Sets text frame keys ↔ (frame, keys) ∈ changes :=
  exists_read_iff (spells_iff.mp spells)

theorem Spells.eq_nil_iff {text : String} {changes : List (Nat × KeySet)}
    (spells : Spells text changes) :
    changes = [] ↔ ∀ piece ∈ text.toList.splitOn ',', Blank piece := by
  have read := spells_iff.mp spells
  rw [← List.map_eq_nil_iff, ← read, List.map_eq_nil_iff, entries_eq, entriesOf,
    List.filter_eq_nil_iff, List.forall_mem_map]
  simp [trim_eq_iff, trims_nil_iff]

/-! ## Reading -/

def Addable (schedule : KeySchedule) (changes : List (Nat × KeySet)) : Prop :=
  (changes.map Prod.fst).Nodup ∧ ∀ change ∈ changes, schedule.keysAt? change.1 = none

theorem addable_nil (schedule : KeySchedule) : Addable schedule [] :=
  ⟨List.nodup_nil, List.forall_mem_nil _⟩

theorem exists_insert? {schedule : KeySchedule} {frame : Nat}
    (free : schedule.keysAt? frame = none) (keys : KeySet) :
    ∃ longer, schedule.insert? frame keys = some longer := by
  rw [insert?, free]
  exact ⟨_, rfl⟩

theorem addable_cons {schedule longer : KeySchedule} {frame : Nat} {keys : KeySet}
    {rest : List (Nat × KeySet)} (added : schedule.insert? frame keys = some longer) :
    Addable schedule ((frame, keys) :: rest) ↔ Addable longer rest := by
  have free := keysAt?_of_insert? added
  have after : ∀ change : Nat × KeySet, longer.keysAt? change.1 = none ↔
      change.1 ≠ frame ∧ schedule.keysAt? change.1 = none := by
    intro change
    rw [keysAt?_insert? added]
    split <;> simp_all
  simp only [Addable, List.map_cons, List.nodup_cons, List.forall_mem_cons, after, free, true_and]
  constructor
  · rintro ⟨⟨apart, nodup⟩, unset⟩
    refine ⟨nodup, fun change listed => ⟨?_, unset change listed⟩⟩
    exact fun same => apart (List.mem_map.mpr ⟨change, listed, same⟩)
  · rintro ⟨nodup, both⟩
    refine ⟨⟨?_, nodup⟩, fun change listed => (both change listed).2⟩
    intro repeated
    obtain ⟨change, listed, same⟩ := List.mem_map.mp repeated
    exact (both change listed).1 same

theorem read_of_readEntries {texts : List (List Char)} {schedule longer : KeySchedule}
    (read : readEntries schedule texts = .ok longer) :
    ∃ changes, texts.map readEntry = changes.map .ok ∧ Addable schedule changes := by
  induction texts generalizing schedule with
  | nil => exact ⟨[], rfl, addable_nil schedule⟩
  | cons entry rest ih =>
      obtain ⟨frame, keys, middle, first, added, later⟩ := readEntries_cons_eq_ok_iff.mp read
      obtain ⟨changes, others, addable⟩ := ih later
      refine ⟨(frame, keys) :: changes, ?_, (addable_cons added).mpr addable⟩
      rw [List.map_cons, List.map_cons, first, others]

theorem readEntries_of_read {texts : List (List Char)} {schedule : KeySchedule}
    {changes : List (Nat × KeySet)} (read : texts.map readEntry = changes.map .ok)
    (addable : Addable schedule changes) : ∃ longer, readEntries schedule texts = .ok longer := by
  induction texts generalizing schedule changes with
  | nil => exact ⟨schedule, rfl⟩
  | cons entry rest ih =>
      obtain ⟨⟨frame, keys⟩, later, rfl, first, others⟩ := List.map_eq_cons_iff.mp read.symm
      obtain ⟨middle, added⟩ := exists_insert? (addable.2 _ List.mem_cons_self) keys
      obtain ⟨longer, read⟩ := ih others.symm ((addable_cons added).mp addable)
      exact ⟨longer, readEntries_cons_eq_ok_iff.mpr ⟨frame, keys, middle, first.symm, added, read⟩⟩

theorem addable_empty {changes : List (Nat × KeySet)} :
    Addable empty changes ↔ (changes.map Prod.fst).Nodup :=
  and_iff_left fun _ _ => rfl

/-- A text is read if it is of the grammar and none of its entries repeats a frame. -/
theorem exists_ofText_iff {text : String} : (∃ schedule, ofText text = .ok schedule) ↔
    ∃ changes, Spells text changes ∧ (changes.map Prod.fst).Nodup := by
  simp only [spells_iff, ← addable_empty]
  constructor
  · rintro ⟨schedule, read⟩
    exact read_of_readEntries read
  · rintro ⟨changes, read, addable⟩
    exact readEntries_of_read read addable

/-- A schedule is the finite map that a list of changes describes. -/
structure Represents (schedule : KeySchedule) (changes : List (Nat × KeySet)) : Prop where
  ordered : schedule.Ordered
  listed : schedule.changes.Perm changes
  keysAt? : ∀ frame keys, schedule.keysAt? frame = some keys ↔ (frame, keys) ∈ changes
  lastFrame? : ∀ last, schedule.lastFrame? = some last ↔
    last ∈ changes.map Prod.fst ∧ ∀ frame ∈ changes.map Prod.fst, frame ≤ last
  isEmpty : schedule.isEmpty = true ↔ changes = []

theorem represents_of_ordered {schedule : KeySchedule} {changes : List (Nat × KeySet)}
    (ordered : schedule.Ordered) (nodup : (changes.map Prod.fst).Nodup)
    (keysAt? : ∀ frame keys, schedule.keysAt? frame = some keys ↔ (frame, keys) ∈ changes) :
    schedule.Represents changes := by
  have scheduled : ∀ frame, (schedule.keysAt? frame).isSome ↔ frame ∈ changes.map Prod.fst := by
    intro frame
    simp [Option.isSome_iff_exists, keysAt?]
  have nodupChanges : changes.Nodup := by
    refine List.Pairwise.imp ?_ (List.pairwise_map.mp nodup)
    exact fun apart same => apart (congrArg Prod.fst same)
  refine ⟨ordered, ?_, keysAt?, ?_, ?_⟩
  · refine (List.perm_ext_iff_of_nodup ordered.nodup nodupChanges).mpr ?_
    rintro ⟨frame, keys⟩
    rw [ordered.mem_changes_iff, keysAt?]
  · intro last
    rw [ordered.lastFrame?_eq_some_iff, IsLast]
    simp only [scheduled]
  · have unset : ∀ frame, schedule.keysAt? frame = none ↔ frame ∉ changes.map Prod.fst := by
      intro frame
      rw [← scheduled, Option.not_isSome_iff_eq_none]
    simp only [isEmpty_iff, unset, ← List.eq_nil_iff_forall_not_mem, List.map_eq_nil_iff]

theorem represents_of_spells {text : String} {schedule : KeySchedule}
    {changes : List (Nat × KeySet)} (read : ofText text = .ok schedule)
    (spells : Spells text changes) : schedule.Represents changes := by
  obtain ⟨others, spellsOthers, nodup⟩ := exists_ofText_iff.mp ⟨schedule, read⟩
  cases spells.unique spellsOthers
  refine represents_of_ordered (ordered_ofText read) nodup ?_
  intro frame keys
  rw [keysAt?_ofText read, spells.sets_iff]

/-! ## Writing -/

/-- A piece written for a change: the frame in decimal, `=` and digits of the keys, with white
space at will around the two. -/
def WritesEntry (piece : List Char) (frame : Nat) (keys : KeySet) : Prop :=
  ∃ a b c d digits, Blank a ∧ Blank b ∧ Blank c ∧ Blank d ∧ SpellsKeys digits keys ∧
    piece = (a ++ frame.repr.toList ++ b) ++ '=' :: (c ++ digits ++ d)

inductive WritesPieces : List (List Char) → List (Nat × KeySet) → Prop
  | nil : WritesPieces [] []
  | blank {piece : List Char} {rest : List (List Char)} {changes : List (Nat × KeySet)} :
      Blank piece → WritesPieces rest changes → WritesPieces (piece :: rest) changes
  | entry {piece : List Char} {frame : Nat} {keys : KeySet} {rest : List (List Char)}
      {changes : List (Nat × KeySet)} :
      WritesEntry piece frame keys → WritesPieces rest changes →
        WritesPieces (piece :: rest) ((frame, keys) :: changes)

def Writes (text : String) (changes : List (Nat × KeySet)) : Prop :=
  ∃ pieces, WritesPieces pieces changes ∧ text.toList = [','].intercalate pieces

theorem spellsKeys_toList (keys : KeySet) : SpellsKeys (keys.toList.map hexDigit) keys := by
  have listed {key : Nat} (member : key ∈ keys.toList) : IsHexDigit (hexDigit key) key :=
    digitIn?_sixteen_iff.mp (digitIn?_hexDigit (List.mem_range.mp (List.mem_filter.mp member).1))
  refine ⟨?_, fun key => ⟨?_, ?_⟩⟩
  · rw [List.forall_mem_map]
    exact fun key member => ⟨key, listed member⟩
  · intro held
    have small : key < 16 := BitVec.lt_of_getLsbD held
    have member : key ∈ keys.toList := List.mem_filter.mpr ⟨List.mem_range.mpr small, held⟩
    exact ⟨hexDigit key, List.mem_map_of_mem member, listed member⟩
  · rintro ⟨_, written, named⟩
    obtain ⟨other, member, rfl⟩ := List.mem_map.mp written
    have own := digitIn?_sixteen_iff.mpr (listed member)
    rw [digitIn?_sixteen_iff.mpr named] at own
    cases own
    exact (List.mem_filter.mp member).2

/-- All changes can be written. -/
theorem exists_writes (changes : List (Nat × KeySet)) : ∃ text, Writes text changes := by
  suffices written : ∃ pieces, WritesPieces pieces changes by
    obtain ⟨pieces, writes⟩ := written
    exact ⟨String.ofList ([','].intercalate pieces), pieces, writes, String.toList_ofList⟩
  induction changes with
  | nil => exact ⟨[], .nil⟩
  | cons change rest ih =>
      obtain ⟨pieces, writes⟩ := ih
      have entry : WritesEntry (change.1.repr.toList ++ '=' :: change.2.toList.map hexDigit)
          change.1 change.2 :=
        ⟨[], [], [], [], _, blank_nil, blank_nil, blank_nil, blank_nil, spellsKeys_toList change.2,
          by simp⟩
      exact ⟨_, .entry entry writes⟩

/-! Both parts of a written entry are hexadecimal digits with white space around them. -/

theorem named_of_repr (frame : Nat) : ∀ c ∈ frame.repr.toList, ∃ n, IsHexDigit c n := by
  intro c member
  exact ⟨_, isHexDigit_of_isDigit ((isDigits_repr frame).2.1 c member)⟩

theorem trim_padded {left digits right : List Char} (front : Blank left) (back : Blank right)
    (named : ∀ c ∈ digits, ∃ n, IsHexDigit c n) : trim (left ++ digits ++ right) = digits := by
  rw [trim_pad front back, trim_eq_iff]
  refine trims_self fun c member => ?_
  obtain ⟨n, digit⟩ := named c member
  exact isBlank_of_isHexDigit digit

theorem notMem_padded {left digits right : List Char} {c : Char} (front : Blank left)
    (back : Blank right) (named : ∀ c ∈ digits, ∃ n, IsHexDigit c n)
    (visible : isBlank c = false) (other : digitIn? 16 c = none) :
    c ∉ left ++ digits ++ right := by
  have apart {margin : List Char} (blank : Blank margin) : c ∉ margin := by
    intro member
    rw [blank c member] at visible
    cases visible
  have noDigit : c ∉ digits := by
    intro member
    obtain ⟨n, digit⟩ := named c member
    rw [digitIn?_sixteen_iff.mpr digit] at other
    cases other
  simp only [List.mem_append, not_or]
  exact ⟨⟨apart front, noDigit⟩, apart back⟩

theorem WritesEntry.isEntry {piece : List Char} {frame : Nat} {keys : KeySet}
    (writes : WritesEntry piece frame keys) (fits : frame ≤ maxFrame) :
    ∃ entry, Trims piece entry ∧ IsEntry entry frame keys := by
  obtain ⟨a, b, c, d, digits, blankA, blankB, blankC, blankD, spells, rfl⟩ := writes
  have visible : isBlank '=' = false := by decide
  have first : '=' ∉ a ++ frame.repr.toList ++ b :=
    notMem_padded blankA blankB (named_of_repr frame) visible (by decide)
  -- Trimming the whole piece trims each part at one end; trimming the part does the rest.
  obtain ⟨before, after, trims, trimBefore, trimAfter, sub⟩ :=
    exists_trims_around (a ++ frame.repr.toList ++ b) (c ++ digits ++ d) visible
  rw [trim_padded blankA blankB (named_of_repr frame), trim_eq_iff] at trimBefore
  rw [trim_padded blankC blankD spells.1, trim_eq_iff] at trimAfter
  exact ⟨_, trims, before, after, _, _, rfl, fun member => first (sub _ member), trimBefore,
    ⟨_, .inl rfl, isDigits_repr frame⟩, fits, trimAfter, spells⟩

theorem WritesEntry.comma_notMem {piece : List Char} {frame : Nat} {keys : KeySet}
    (writes : WritesEntry piece frame keys) : ',' ∉ piece := by
  obtain ⟨a, b, c, d, digits, blankA, blankB, blankC, blankD, spells, rfl⟩ := writes
  have visible : isBlank ',' = false := by decide
  have noDigit : digitIn? 16 ',' = none := by decide
  rw [List.mem_append, List.mem_cons, not_or, not_or]
  exact ⟨notMem_padded blankA blankB (named_of_repr frame) visible noDigit, by decide,
    notMem_padded blankC blankD spells.1 visible noDigit⟩

theorem WritesPieces.comma_notMem {pieces : List (List Char)} {changes : List (Nat × KeySet)}
    (writes : WritesPieces pieces changes) : ∀ piece ∈ pieces, ',' ∉ piece := by
  induction writes with
  | nil => exact List.forall_mem_nil _
  | blank blank _ ih =>
      refine List.forall_mem_cons.mpr ⟨?_, ih⟩
      intro member
      cases blank ',' member
  | entry writes _ ih => exact List.forall_mem_cons.mpr ⟨writes.comma_notMem, ih⟩

theorem WritesPieces.spells {pieces : List (List Char)} {changes : List (Nat × KeySet)}
    (writes : WritesPieces pieces changes)
    (fits : ∀ change ∈ changes, change.1 ≤ maxFrame) : SpellsPieces pieces changes := by
  induction writes with
  | nil => exact .nil
  | blank blank _ ih => exact .blank (trims_nil_iff.mpr blank) (ih fits)
  | entry writes _ ih =>
      obtain ⟨here, later⟩ := List.forall_mem_cons.mp fits
      obtain ⟨entry, trims, isEntry⟩ := writes.isEntry here
      exact .entry trims isEntry (ih later)

theorem Writes.spells {text : String} {changes : List (Nat × KeySet)} (writes : Writes text changes)
    (fits : ∀ change ∈ changes, change.1 ≤ maxFrame) : Spells text changes := by
  obtain ⟨pieces, writes, joined⟩ := writes
  rw [Spells, joined]
  cases pieces with
  | nil =>
      cases writes
      exact .blank (trims_nil_iff.mpr blank_nil) .nil
  | cons piece rest =>
      rw [List.splitOn_intercalate ',' writes.comma_notMem nofun]
      exact writes.spells fits

theorem Writes.read {text : String} {changes : List (Nat × KeySet)} (writes : Writes text changes)
    (nodup : (changes.map Prod.fst).Nodup)
    (fits : ∀ change ∈ changes, change.1 ≤ maxFrame) :
    ∃ schedule, ofText text = .ok schedule ∧ schedule.Represents changes := by
  have spells := writes.spells fits
  obtain ⟨schedule, read⟩ := exists_ofText_iff.mpr ⟨changes, spells, nodup⟩
  exact ⟨schedule, read, represents_of_spells read spells⟩

/-- Every finite map from frames that fit a machine word is read from some text. -/
theorem exists_text_represents {changes : List (Nat × KeySet)}
    (nodup : (changes.map Prod.fst).Nodup)
    (fits : ∀ change ∈ changes, change.1 ≤ maxFrame) :
    ∃ text schedule, ofText text = .ok schedule ∧ schedule.Represents changes := by
  obtain ⟨text, writes⟩ := exists_writes changes
  exact ⟨text, writes.read nodup fits⟩

/-- The texts that are read are those of the grammar in which no frame comes twice, and what is
read is the finite map that the text lists; in particular every finite map is read back from
every way of writing it. -/
theorem ofText_exact (text : String) :
    ((∃ schedule, ofText text = .ok schedule) ↔
      ∃ changes, Spells text changes ∧ (changes.map Prod.fst).Nodup) ∧
    (∀ schedule changes, ofText text = .ok schedule → Spells text changes →
      schedule.Represents changes ∧
        (schedule.isEmpty = true ↔ ∀ piece ∈ text.toList.splitOn ',', Blank piece)) ∧
    ∀ changes, (changes.map Prod.fst).Nodup →
      (∀ change ∈ changes, change.1 ≤ maxFrame) → Writes text changes →
        ∃ schedule, ofText text = .ok schedule ∧ schedule.Represents changes := by
  refine ⟨exists_ofText_iff, ?_, ?_⟩
  · intro schedule changes read spells
    have represents := represents_of_spells read spells
    exact ⟨represents, represents.isEmpty.trans spells.eq_nil_iff⟩
  · exact fun changes nodup fits writes => writes.read nodup fits

/-- Two entries out of order, a digit in both cases, blank pieces and a release of all keys. -/
theorem ofText_exact_of_untidy :
    let text := " 12 =fF,,\t7=\n,"
    let changes : List (Nat × KeySet) := [(12, ⟨0x8000⟩), (7, ∅)]
    Writes text changes ∧ Spells text changes ∧
      ∃ schedule, ofText text = .ok schedule ∧ schedule.Represents changes ∧
        schedule.isEmpty = false := by
  intro text changes
  have writes : Writes text changes := by
    refine ⟨[" 12 =fF".toList, [], "\t7=\n".toList, []], ?_, by decide +kernel⟩
    refine .entry ?_ (.blank blank_nil (.entry ?_ (.blank blank_nil .nil)))
    · exact ⟨[' '], [' '], [], [], ['f', 'F'], by decide, by decide, by decide, by decide,
        readKeys_empty_eq_ok_iff.mp (by decide), by decide +kernel⟩
    · exact ⟨['\t'], [], [], ['\n'], [], by decide, by decide, by decide, by decide,
        readKeys_empty_eq_ok_iff.mp (by decide), by decide +kernel⟩
  have fits : ∀ change ∈ changes, change.1 ≤ maxFrame := by decide
  have spells := writes.spells fits
  obtain ⟨-, reading, writing⟩ := ofText_exact text
  obtain ⟨schedule, read, represents⟩ := writing changes (by decide) fits writes
  obtain ⟨-, isEmpty⟩ := reading schedule changes read spells
  refine ⟨writes, spells, schedule, read, represents, ?_⟩
  rw [Bool.eq_false_iff, ne_eq, isEmpty]
  decide +kernel

end Chip8.KeySchedule
