import Chip8.Proofs.ScheduleGrammar

/-!
# Joined schedules and their first error

A text that is refused is refused for its first objectionable entry, and that entry for the
first check it fails: the sign `=`, then the frame, then the keys from the left, and last
whether the frame is free.  So two texts with a comma between them are read as the first and
then the second, whose frames must be free of the first one's as well.
-/

set_option autoImplicit false

namespace Chip8.KeySchedule

open Text

/-! ## What is wrong with an entry -/

/-- What is reported of an entry when some frames are taken.  Each check supposes the ones
before it passed, and nothing about those after it. -/
inductive Objection (taken : Nat → Prop) : List Char → Malformed → Prop
  | missingEquals {entry : List Char} :
      '=' ∉ entry → Objection taken entry (.missingEquals entry)
  | badFrame {before after numeral : List Char} {cause : NumeralError} :
      '=' ∉ before → Trims before numeral →
        (∀ frame ≤ maxFrame, ¬ IsNumeral numeral frame) →
        readNat maxWord numeral = .error cause →
          Objection taken (before ++ '=' :: after) (.badFrame (before ++ '=' :: after) cause)
  | badKey {before after numeral good rest : List Char} {frame : Nat} {c : Char} :
      '=' ∉ before → Trims before numeral → IsNumeral numeral frame →
        frame ≤ maxFrame → Trims after (good ++ c :: rest) →
        (∀ d ∈ good, ∃ key, IsHexDigit d key) → (∀ key, ¬ IsHexDigit c key) →
          Objection taken (before ++ '=' :: after) (.badKey (before ++ '=' :: after) c)
  | repeatedFrame {entry : List Char} {frame : Nat} {keys : KeySet} :
      IsEntry entry frame keys → taken frame → Objection taken entry (.repeatedFrame frame)

theorem Objection.mono {taken more : Nat → Prop} {entry : List Char} {malformed : Malformed}
    (objection : Objection taken entry malformed) (within : ∀ frame, taken frame → more frame) :
    Objection more entry malformed := by
  cases objection with
  | missingEquals missing => exact .missingEquals missing
  | badFrame first trims none bad => exact .badFrame first trims none bad
  | badKey first trims numeral fits keys good bad =>
      exact .badKey first trims numeral fits keys good bad
  | repeatedFrame isEntry repeated => exact .repeatedFrame isEntry (within _ repeated)

theorem readKeys_of_badKey {good rest : List Char} {held : KeySet} {c : Char}
    (named : ∀ d ∈ good, ∃ key, IsHexDigit d key) (unnamed : ∀ key, ¬ IsHexDigit c key) :
    readKeys held (good ++ c :: rest) = .error c := by
  induction good generalizing held with
  | nil =>
      have none : digitIn? 16 c = none := by
        rw [Option.eq_none_iff_forall_ne_some]
        exact fun key read => unnamed key (digitIn?_sixteen_iff.mp read)
      rw [List.nil_append, readKeys, none]
  | cons d good ih =>
      obtain ⟨⟨key, digit⟩, later⟩ := List.forall_mem_cons.mp named
      rw [List.cons_append, readKeys, digitIn?_sixteen_iff.mpr digit]
      exact ih later

theorem badKey_of_readKeys {digits : List Char} {held : KeySet} {c : Char}
    (read : readKeys held digits = .error c) : ∃ good rest, digits = good ++ c :: rest ∧
      (∀ d ∈ good, ∃ key, IsHexDigit d key) ∧ ∀ key, ¬ IsHexDigit c key := by
  induction digits generalizing held with
  | nil => cases read
  | cons d rest ih =>
      rw [readKeys] at read
      cases digit : digitIn? 16 d with
      | some key =>
          rw [digit] at read
          obtain ⟨good, behind, rfl, named, unnamed⟩ := ih read
          have first : ∃ key, IsHexDigit d key := ⟨key, digitIn?_sixteen_iff.mp digit⟩
          exact ⟨d :: good, behind, rfl, List.forall_mem_cons.mpr ⟨first, named⟩, unnamed⟩
      | none =>
          rw [digit] at read
          cases read
          refine ⟨[], rest, rfl, List.forall_mem_nil _, fun key named => ?_⟩
          rw [digitIn?_sixteen_iff.mpr named] at digit
          cases digit

theorem objection_of_readEntry {entry : List Char} {malformed : Malformed} (taken : Nat → Prop)
    (read : readEntry entry = .error malformed) : Objection taken entry malformed := by
  by_cases equals : '=' ∈ entry
  case neg =>
    rw [readEntry_of_missing equals] at read
    cases read
    exact .missingEquals equals
  case pos =>
    obtain ⟨before, after, rfl, first⟩ := List.eq_append_cons_of_mem equals
    rw [readEntry_split first] at read
    split at read
    · rename_i cause bad
      cases read
      refine .badFrame first (trims_trim before) (fun frame fits isNumeral => ?_) bad
      have good : readNat maxWord (trim before) = .ok frame :=
        readNat_eq_ok_iff.mpr ⟨isNumeral, fits⟩
      rw [bad] at good
      cases good
    · rename_i frame numeral
      obtain ⟨isNumeral, fits⟩ := readNat_eq_ok_iff.mp numeral
      split at read
      · rename_i c bad
        cases read
        obtain ⟨good, rest, digits, named, unnamed⟩ := badKey_of_readKeys bad
        exact .badKey first (trims_trim before) isNumeral fits (trim_eq_iff.mp digits) named unnamed
      · cases read

theorem objection_iff {taken : Nat → Prop} {entry : List Char} {malformed : Malformed} :
    Objection taken entry malformed ↔ readEntry entry = .error malformed ∨
      ∃ frame keys, readEntry entry = .ok (frame, keys) ∧ taken frame ∧
        malformed = .repeatedFrame frame := by
  constructor
  · intro objection
    cases objection with
    | missingEquals missing => exact .inl (readEntry_of_missing missing)
    | badFrame first trims none bad =>
        left
        rw [readEntry_split first, trim_of_trims trims, bad]
    | badKey first trims numeral fits keys named unnamed =>
        left
        have read : readNat maxWord _ = .ok _ := readNat_eq_ok_iff.mpr ⟨numeral, fits⟩
        rw [readEntry_split first, trim_of_trims trims, trim_of_trims keys, read]
        dsimp only
        rw [readKeys_of_badKey named unnamed]
    | repeatedFrame isEntry repeated =>
        exact .inr ⟨_, _, readEntry_eq_ok_iff.mpr isEntry, repeated, rfl⟩
  · rintro (read | ⟨frame, keys, read, repeated, rfl⟩)
    · exact objection_of_readEntry taken read
    · exact .repeatedFrame (readEntry_eq_ok_iff.mp read) repeated

/-! ## The first error of a text -/

theorem insert?_eq_none_iff {schedule : KeySchedule} {frame : Nat} {keys : KeySet} :
    schedule.insert? frame keys = none ↔ (schedule.keysAt? frame).isSome := by
  rw [insert?]
  split <;> simp_all

theorem readEntries_of_objection {schedule : KeySchedule} {entry : List Char}
    {malformed : Malformed} (rest : List (List Char))
    (objection : Objection (fun frame => (schedule.keysAt? frame).isSome) entry malformed) :
    readEntries schedule (entry :: rest) = .error malformed := by
  rw [readEntries]
  rcases objection_iff.mp objection with read | ⟨frame, keys, read, repeated, rfl⟩
  · rw [read]
  · rw [read]
    dsimp only
    rw [insert?_eq_none_iff.mpr repeated]

theorem readEntries_append (schedule : KeySchedule) (texts more : List (List Char)) :
    readEntries schedule (texts ++ more) =
      (readEntries schedule texts).bind fun middle => readEntries middle more := by
  induction texts generalizing schedule with
  | nil => rfl
  | cons entry rest ih =>
      rw [List.cons_append, readEntries, readEntries]
      split
      · rfl
      · split
        · rfl
        · exact ih _

/-- The entries before the first error can be added one by one, and that error is an objection
to the next entry, to whose frame they add theirs as taken. -/
theorem objection_of_readEntries {texts : List (List Char)} {schedule : KeySchedule}
    {malformed : Malformed} (read : readEntries schedule texts = .error malformed) :
    ∃ done entry rest changes, texts = done ++ entry :: rest ∧
      done.map readEntry = changes.map .ok ∧ Addable schedule changes ∧
        Objection (fun frame => (schedule.keysAt? frame).isSome ∨ frame ∈ changes.map Prod.fst)
          entry malformed := by
  induction texts generalizing schedule with
  | nil => cases read
  | cons entry rest ih =>
      rw [readEntries] at read
      cases good : readEntry entry with
      | error other =>
          rw [good] at read
          cases read
          exact ⟨[], entry, rest, [], rfl, rfl, addable_nil schedule,
            objection_of_readEntry _ good⟩
      | ok change =>
          obtain ⟨frame, keys⟩ := change
          rw [good] at read
          dsimp only at read
          cases added : schedule.insert? frame keys with
          | none =>
              rw [added] at read
              cases read
              have repeated := insert?_eq_none_iff.mp added
              have isEntry := readEntry_eq_ok_iff.mp good
              exact ⟨[], entry, rest, [], rfl, rfl, addable_nil schedule,
                .repeatedFrame isEntry (.inl repeated)⟩
          | some middle =>
              rw [added] at read
              obtain ⟨done, bad, behind, changes, rfl, others, addable, objection⟩ := ih read
              refine ⟨entry :: done, bad, behind, (frame, keys) :: changes, rfl, ?_,
                (addable_cons added).mpr addable, objection.mono ?_⟩
              · rw [List.map_cons, List.map_cons, good, others]
              · intro other taken
                rw [keysAt?_insert? added] at taken
                rw [List.map_cons, List.mem_cons]
                by_cases same : other = frame
                · exact .inr (.inl same)
                · rw [if_neg same] at taken
                  exact taken.imp_right .inr

theorem isSome_keysAt?_of_read {texts : List (List Char)} {schedule longer : KeySchedule}
    {changes : List (Nat × KeySet)} (good : texts.map readEntry = changes.map .ok)
    (read : readEntries schedule texts = .ok longer) (frame : Nat) :
    (longer.keysAt? frame).isSome ↔
      (schedule.keysAt? frame).isSome ∨ frame ∈ changes.map Prod.fst := by
  simp only [Option.isSome_iff_exists, keysAt?_readEntries read, exists_read_iff good]
  simp [exists_or]

theorem readEntries_of_read_of_objection {texts : List (List Char)} {schedule : KeySchedule}
    {changes : List (Nat × KeySet)} {entry : List Char} {malformed : Malformed}
    (good : texts.map readEntry = changes.map .ok) (addable : Addable schedule changes)
    (objection : Objection
      (fun frame => (schedule.keysAt? frame).isSome ∨ frame ∈ changes.map Prod.fst) entry malformed)
    (rest : List (List Char)) :
    readEntries schedule (texts ++ entry :: rest) = .error malformed := by
  obtain ⟨middle, read⟩ := readEntries_of_read good addable
  have still := objection.mono fun frame => (isSome_keysAt?_of_read good read frame).mpr
  rw [readEntries_append, read]
  exact readEntries_of_objection rest still

/-- A text whose first objectionable entry comes after entries for some changes. -/
def FailsAfter (text : String) (changes : List (Nat × KeySet)) (malformed : Malformed) : Prop :=
  ∃ before piece after entry, text.toList.splitOn ',' = before ++ piece :: after ∧
    SpellsPieces before changes ∧ (changes.map Prod.fst).Nodup ∧ Trims piece entry ∧ entry ≠ [] ∧
      Objection (fun frame => frame ∈ changes.map Prod.fst) entry malformed

theorem entriesOf_append (before after : List (List Char)) :
    entriesOf (before ++ after) = entriesOf before ++ entriesOf after := by
  rw [entriesOf, List.map_append, List.filter_append]
  rfl

theorem exists_piece {pieces done rest : List (List Char)} {entry : List Char}
    (listed : entriesOf pieces = done ++ entry :: rest) :
    ∃ before piece after, pieces = before ++ piece :: after ∧ entriesOf before = done ∧
      Trims piece entry ∧ entry ≠ [] := by
  obtain ⟨first, second, trimmed, firsts, seconds⟩ := List.filter_eq_append_iff.mp listed
  obtain ⟨blanks, last, rfl, blank, visible, -⟩ := List.filter_eq_cons_iff.mp seconds
  rw [← List.append_assoc] at trimmed
  obtain ⟨before, others, rfl, front, back⟩ := List.map_eq_append_iff.mp trimmed
  obtain ⟨piece, after, rfl, same, -⟩ := List.map_eq_cons_iff.mp back
  refine ⟨before, piece, after, rfl, ?_, trim_eq_iff.mp same, by simpa using visible⟩
  rw [entriesOf, front, List.filter_append, firsts, List.filter_eq_nil_iff.mpr blank,
    List.append_nil]

theorem FailsAfter.entries {text : String} {changes : List (Nat × KeySet)} {malformed : Malformed}
    (fails : FailsAfter text changes malformed) :
    ∃ texts entry rest, entries text.toList = texts ++ entry :: rest ∧
      texts.map readEntry = changes.map .ok ∧ (changes.map Prod.fst).Nodup ∧
        Objection (fun frame => frame ∈ changes.map Prod.fst) entry malformed := by
  obtain ⟨before, piece, after, entry, split, spells, nodup, trims, visible, objection⟩ := fails
  refine ⟨_, entry, entriesOf after, ?_, read_of_spellsPieces spells, nodup, objection⟩
  rw [entries_eq, split, entriesOf_append, entriesOf_cons_of_trims trims visible]

/-- A text is refused for the first objection to an entry of it. -/
theorem ofText_eq_error_iff {text : String} {malformed : Malformed} :
    ofText text = .error malformed ↔ ∃ changes, FailsAfter text changes malformed := by
  rw [ofText]
  constructor
  · intro read
    obtain ⟨done, entry, rest, changes, listed, good, addable, objection⟩ :=
      objection_of_readEntries read
    rw [entries_eq] at listed
    obtain ⟨before, piece, after, split, rfl, trims, visible⟩ := exists_piece listed
    refine ⟨changes, before, piece, after, entry, split, spellsPieces_iff.mpr good,
      addable_empty.mp addable, trims, visible, objection.mono ?_⟩
    rintro frame (before | repeated)
    · cases before
    · exact repeated
  · rintro ⟨changes, fails⟩
    obtain ⟨texts, entry, rest, listed, good, nodup, objection⟩ := fails.entries
    rw [listed]
    exact readEntries_of_read_of_objection good (addable_empty.mpr nodup)
      (objection.mono fun _ => .inr) rest

/-! ## Joining -/

theorem entries_joined (p q : String) :
    entries (p ++ "," ++ q).toList = entries p.toList ++ entries q.toList := by
  have joined : (p ++ "," ++ q).toList = p.toList ++ ',' :: q.toList := by
    rw [String.toList_append, String.toList_append, List.append_assoc]
    rfl
  rw [joined, entries_eq, entries_eq, entries_eq, List.splitOn_append_cons_self, entriesOf_append]

theorem ofText_joined (p q : String) : ofText (p ++ "," ++ q) =
    (ofText p).bind fun schedule => readEntries schedule (entries q.toList) := by
  rw [ofText, entries_joined, readEntries_append]
  rfl

/-- The first of some changes, in their order, at whose frame a schedule has keys. -/
def firstShared? (schedule : KeySchedule) (changes : List (Nat × KeySet)) : Option Nat :=
  (changes.map Prod.fst).find? fun frame => (schedule.keysAt? frame).isSome

theorem firstShared?_eq_none_iff {schedule : KeySchedule} {changes : List (Nat × KeySet)} :
    schedule.firstShared? changes = none ↔
      ∀ change ∈ changes, schedule.keysAt? change.1 = none := by
  simp [firstShared?]

theorem readEntries_of_shared {texts : List (List Char)} {schedule : KeySchedule}
    {changes : List (Nat × KeySet)} {frame : Nat}
    (good : texts.map readEntry = changes.map .ok) (nodup : (changes.map Prod.fst).Nodup)
    (shared : schedule.firstShared? changes = some frame) (rest : List (List Char)) :
    readEntries schedule (texts ++ rest) = .error (.repeatedFrame frame) := by
  obtain ⟨repeated, before, after, split, fresh⟩ := List.find?_eq_some_iff_append.mp shared
  obtain ⟨first, second, rfl, rfl, seconds⟩ := List.map_eq_append_iff.mp split
  obtain ⟨⟨_, keys⟩, last, rfl, rfl, -⟩ := List.map_eq_cons_iff.mp seconds
  rw [List.map_append, List.map_cons] at good
  obtain ⟨done, others, rfl, goods, back⟩ := List.map_eq_append_iff.mp good
  obtain ⟨entry, behind, rfl, read, -⟩ := List.map_eq_cons_iff.mp back
  have addable : Addable schedule first := by
    rw [List.map_append] at nodup
    refine ⟨(List.nodup_append.mp nodup).1, fun change listed => ?_⟩
    have free := fresh change.1 (List.mem_map_of_mem listed)
    simpa using free
  rw [List.append_assoc]
  exact readEntries_of_read_of_objection goods addable
    (.repeatedFrame (readEntry_eq_ok_iff.mp read) (.inl repeated)) _

theorem exists_union {p q : String} {schedule other : KeySchedule}
    (readP : ofText p = .ok schedule) (readQ : ofText q = .ok other)
    (disjoint : ∀ frame, schedule.keysAt? frame = none ∨ other.keysAt? frame = none) :
    ∃ union, ofText (p ++ "," ++ q) = .ok union ∧
      ∀ frame, union.keysAt? frame = (schedule.keysAt? frame).or (other.keysAt? frame) := by
  obtain ⟨changes, good, addable⟩ := read_of_readEntries readQ
  have free : ∀ change ∈ changes, schedule.keysAt? change.1 = none := by
    intro change listed
    refine (disjoint change.1).resolve_right ?_
    rw [(keysAt?_ofText readQ _ _).mpr ((exists_read_iff good).mpr listed)]
    nofun
  obtain ⟨union, read⟩ := readEntries_of_read good ⟨addable.1, free⟩
  refine ⟨union, by rw [ofText_joined, readP]; exact read, fun frame => ?_⟩
  ext keys
  rw [keysAt?_readEntries read]
  change _ ∨ Sets q frame keys ↔ _
  rw [← keysAt?_ofText readQ]
  rcases disjoint frame with none | none <;> simp [none]

/-- Texts without a common frame may be joined either way round. -/
theorem exists_union_comm {p q : String} {schedule other : KeySchedule}
    (readP : ofText p = .ok schedule) (readQ : ofText q = .ok other)
    (disjoint : ∀ frame, schedule.keysAt? frame = none ∨ other.keysAt? frame = none) :
    ∃ union, ofText (p ++ "," ++ q) = .ok union ∧ ofText (q ++ "," ++ p) = .ok union ∧
      ∀ frame, union.keysAt? frame = (schedule.keysAt? frame).or (other.keysAt? frame) := by
  obtain ⟨union, read, keysAt?⟩ := exists_union readP readQ disjoint
  obtain ⟨reverse, readReverse, keysAtReverse?⟩ :=
    exists_union readQ readP fun frame => (disjoint frame).symm
  have same : reverse = union := by
    refine (ordered_ofText readReverse).ext (ordered_ofText read) fun frame => ?_
    rw [keysAt?, keysAtReverse?]
    rcases disjoint frame with none | none <;> simp [none]
  exact ⟨union, read, same ▸ readReverse, keysAt?⟩

theorem joined_of_shared {p q : String} {schedule other : KeySchedule} {frame : Nat}
    (readP : ofText p = .ok schedule) (readQ : ofText q = .ok other)
    (inP : (schedule.keysAt? frame).isSome) (inQ : (other.keysAt? frame).isSome) :
    ∃ changes first, Spells q changes ∧ schedule.firstShared? changes = some first ∧
      ofText (p ++ "," ++ q) = .error (.repeatedFrame first) := by
  obtain ⟨keys, change⟩ := Option.isSome_iff_exists.mp inQ
  obtain ⟨changes, good, addable⟩ := read_of_readEntries readQ
  have spells := spells_iff.mpr good
  have listed : (frame, keys) ∈ changes :=
    spells.sets_iff.mp ((keysAt?_ofText readQ frame keys).mp change)
  cases shared : schedule.firstShared? changes with
  | none =>
      rw [firstShared?_eq_none_iff.mp shared _ listed] at inP
      cases inP
  | some first =>
      have refused := readEntries_of_shared good addable.1 shared []
      rw [List.append_nil] at refused
      exact ⟨changes, first, spells, shared, by rw [ofText_joined, readP]; exact refused⟩

theorem joined_of_failed {p q : String} {schedule : KeySchedule} {malformed : Malformed}
    (readP : ofText p = .ok schedule) (failed : ofText q = .error malformed) :
    ∃ changes, FailsAfter q changes malformed ∧
      (schedule.firstShared? changes = none → ofText (p ++ "," ++ q) = .error malformed) ∧
      ∀ first, schedule.firstShared? changes = some first →
        ofText (p ++ "," ++ q) = .error (.repeatedFrame first) := by
  obtain ⟨changes, fails⟩ := ofText_eq_error_iff.mp failed
  obtain ⟨texts, entry, rest, listed, good, nodup, objection⟩ := fails.entries
  rw [ofText_joined, readP, listed]
  refine ⟨changes, fails, fun unshared => ?_, fun first shared => ?_⟩
  · exact readEntries_of_read_of_objection good ⟨nodup, firstShared?_eq_none_iff.mp unshared⟩
      (objection.mono fun _ => .inr) rest
  · exact readEntries_of_shared good nodup shared (entry :: rest)

/-- Two texts with a comma between them are read as the finite map of the first to which that of
the second is added; what is reported is the first error, in the order written. -/
theorem ofText_joined_exact (p q : String) :
    (∀ malformed, ofText p = .error malformed → ofText (p ++ "," ++ q) = .error malformed) ∧
    (∀ schedule other, ofText p = .ok schedule → ofText q = .ok other →
      (∀ frame, schedule.keysAt? frame = none ∨ other.keysAt? frame = none) →
        ∃ union, ofText (p ++ "," ++ q) = .ok union ∧ ofText (q ++ "," ++ p) = .ok union ∧
          ∀ frame, union.keysAt? frame = (schedule.keysAt? frame).or (other.keysAt? frame)) ∧
    (∀ schedule other frame, ofText p = .ok schedule → ofText q = .ok other →
      (schedule.keysAt? frame).isSome → (other.keysAt? frame).isSome →
        ∃ changes first, Spells q changes ∧ schedule.firstShared? changes = some first ∧
          ofText (p ++ "," ++ q) = .error (.repeatedFrame first)) ∧
    (∀ schedule malformed, ofText p = .ok schedule → ofText q = .error malformed →
      ∃ changes, FailsAfter q changes malformed ∧
        (schedule.firstShared? changes = none → ofText (p ++ "," ++ q) = .error malformed) ∧
        ∀ first, schedule.firstShared? changes = some first →
          ofText (p ++ "," ++ q) = .error (.repeatedFrame first)) ∧
    ∀ malformed, ofText p = .error malformed ↔ ∃ changes, FailsAfter p changes malformed := by
  refine ⟨?_, ?_, ?_, ?_, ?_⟩
  · intro malformed failed
    rw [ofText_joined, failed]
    rfl
  · exact fun schedule other readP readQ disjoint => exists_union_comm readP readQ disjoint
  · exact fun schedule other frame readP readQ inP inQ => joined_of_shared readP readQ inP inQ
  · exact fun schedule malformed readP failed => joined_of_failed readP failed
  · exact fun malformed => ofText_eq_error_iff

/-- A text joined with one that repeats two of its frames, and with one that only ends in an
entry of no frame. -/
theorem ofText_joined_exact_of_repeats :
    let p := "5=1, 9=2"
    let schedule : KeySchedule := ⟨[(5, ⟨0x0002⟩), (9, ⟨0x0004⟩)]⟩
    let malformed := Malformed.badFrame "x=4".toList .invalidDigit
    ofText p = .ok schedule ∧
      (∃ changes first, Spells "7=3,9=,5=F" changes ∧ schedule.firstShared? changes = some first ∧
        ofText (p ++ "," ++ "7=3,9=,5=F") = .error (.repeatedFrame first)) ∧
      ofText (p ++ "," ++ "7=3,9=,5=F") = .error (.repeatedFrame 9) ∧
      (∃ changes, FailsAfter "7=3,x=4" changes malformed) ∧
      ofText (p ++ "," ++ "7=3,x=4") = .error malformed := by
  intro p schedule malformed
  have readP : ofText p = .ok schedule := by decide +kernel
  have readQ : ofText "7=3,9=,5=F" =
      .ok ⟨[(5, ⟨0x8000⟩), (7, ⟨0x0008⟩), (9, ∅)]⟩ := by decide +kernel
  have failed : ofText "7=3,x=4" = .error malformed := by decide +kernel
  obtain ⟨-, -, shared, -, -⟩ := ofText_joined_exact p "7=3,9=,5=F"
  obtain ⟨-, -, -, later, -⟩ := ofText_joined_exact p "7=3,x=4"
  obtain ⟨changes, fails, -⟩ := later schedule malformed readP failed
  exact ⟨readP, shared _ _ 9 readP readQ (by decide) (by decide), by decide +kernel,
    ⟨changes, fails⟩, by decide +kernel⟩

end Chip8.KeySchedule
