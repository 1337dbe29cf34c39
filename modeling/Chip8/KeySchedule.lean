import Chip8.KeySet
import Chip8.Text.Blank
import Chip8.Text.Numeral

/-!
# Key schedules

A key schedule says at which frames the keys change, and which are held from then on.
It is written as entries `frame=keys` with commas between them.  Keys are hexadecimal
digits, none of them to release all; white space around an entry and its two parts is
ignored, and so are empty entries.
-/

set_option autoImplicit false

namespace Chip8

/-- The changes of a schedule, by ascending frame, no frame twice. -/
structure KeySchedule where
  changes : List (Nat × KeySet)
  deriving DecidableEq

namespace KeySchedule

def empty : KeySchedule := ⟨[]⟩

def isEmpty (schedule : KeySchedule) : Bool := schedule.changes.isEmpty

/-- The keys to hold from a frame on, if they change there. -/
def keysAt? (schedule : KeySchedule) (frame : Nat) : Option KeySet := schedule.changes.lookup frame

def lastFrame? (schedule : KeySchedule) : Option Nat := schedule.changes.getLast?.map Prod.fst

def place (frame : Nat) (keys : KeySet) : List (Nat × KeySet) → List (Nat × KeySet)
  | [] => [(frame, keys)]
  | (other, held) :: later =>
      if frame < other then (frame, keys) :: (other, held) :: later
      else (other, held) :: place frame keys later

/-- Add a change at a frame that has none. -/
def insert? (frame : Nat) (keys : KeySet) (schedule : KeySchedule) : Option KeySchedule :=
  if (schedule.keysAt? frame).isSome then none else some ⟨place frame keys schedule.changes⟩

theorem lookup_place (frame other : Nat) (keys : KeySet) (changes : List (Nat × KeySet))
    (fresh : changes.lookup frame = none) :
    (place frame keys changes).lookup other =
      if other = frame then some keys else changes.lookup other := by
  induction changes with
  | nil =>
      by_cases same : other = frame
      · simp [place, same]
      · simp [place, List.lookup_cons, same, beq_eq_false_iff_ne.mpr same]
  | cons change later ih =>
      obtain ⟨first, held⟩ := change
      simp only [List.lookup_cons] at fresh
      split at fresh
      · exact absurd fresh (by simp)
      · rename_i apart
        simp only [place]
        by_cases same : other = frame
        · subst same
          split <;> simp [List.lookup_cons, apart, ih fresh]
        · split <;> simp [List.lookup_cons, ih fresh, same, beq_eq_false_iff_ne.mpr same]

theorem keysAt?_insert? {frame : Nat} {keys : KeySet} {schedule longer : KeySchedule}
    (added : schedule.insert? frame keys = some longer) (other : Nat) :
    longer.keysAt? other = if other = frame then some keys else schedule.keysAt? other := by
  simp only [insert?] at added
  split at added
  · exact absurd added (by simp)
  · rename_i free
    obtain rfl := Option.some.inj added
    exact lookup_place frame other keys schedule.changes (Option.not_isSome_iff_eq_none.mp free)

/-! ## The written form -/

inductive Malformed where
  | missingEquals (entry : List Char)
  | badFrame (entry : List Char) (cause : Text.NumeralError)
  | badKey (entry : List Char) (key : Char)
  | repeatedFrame (frame : Nat)
  deriving DecidableEq

namespace Malformed

def headline : Malformed → String
  | missingEquals entry => "key script entry '" ++ String.ofList entry ++ "' is missing '='"
  | badFrame entry _ => "invalid frame number in '" ++ String.ofList entry ++ "'"
  | badKey entry _ => "in '" ++ String.ofList entry ++ "'"
  | repeatedFrame frame => "frame " ++ frame.repr ++ " is scripted twice"

/-- What lies behind the headline, if anything. -/
def cause? : Malformed → Option String
  | missingEquals _ => none
  | badFrame _ cause => some cause.message
  | badKey _ key => some ("'" ++ String.singleton key ++ "' is not a hex key")
  | repeatedFrame _ => none

def message (malformed : Malformed) : String :=
  match malformed.cause? with
  | some cause => malformed.headline ++ ": " ++ cause
  | none => malformed.headline

end Malformed

def pieces : List Char → List (List Char)
  | [] => [[]]
  | ',' :: rest => [] :: pieces rest
  | c :: rest =>
      match pieces rest with
      | [] => [[c]]
      | piece :: others => (c :: piece) :: others

/-- The entries of a text: its pieces, trimmed, that are not empty. -/
def entries (text : List Char) : List (List Char) :=
  ((pieces text).map Text.trim).filter fun entry => !entry.isEmpty

/-- Read the keys of an entry; the error is the first character that names none. -/
def readKeys (held : KeySet) : List Char → Except Char KeySet
  | [] => .ok held
  | c :: rest =>
      match Text.digitIn? 16 c with
      | some key => readKeys (held.insert key) rest
      | none => .error c

def readEntry (entry : List Char) : Except Malformed (Nat × KeySet) :=
  match entry.dropWhile (· != '=') with
  | [] => .error (.missingEquals entry)
  | _ :: keys =>
      match Text.readNat Text.maxWord (Text.trim (entry.takeWhile (· != '='))) with
      | .error cause => .error (.badFrame entry cause)
      | .ok frame =>
          match readKeys ∅ (Text.trim keys) with
          | .error key => .error (.badKey entry key)
          | .ok keys => .ok (frame, keys)

/-- Read entries into a schedule, up to the first that is wrong. -/
def readEntries (schedule : KeySchedule) : List (List Char) → Except Malformed KeySchedule
  | [] => .ok schedule
  | entry :: rest =>
      match readEntry entry with
      | .error malformed => .error malformed
      | .ok (frame, keys) =>
          match schedule.insert? frame keys with
          | none => .error (.repeatedFrame frame)
          | some schedule => readEntries schedule rest

def ofText (text : String) : Except Malformed KeySchedule := readEntries .empty (entries text.toList)

end KeySchedule

end Chip8
