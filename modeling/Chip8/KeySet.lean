/-!
# Key sets

The keypad has sixteen keys, named by the hexadecimal digits.  A set of keys is a
16-bit mask whose bit `k` says that key `k` is down; numbers above fifteen name no
key, and setting or clearing them does nothing.
-/

set_option autoImplicit false

namespace Chip8

structure KeySet where
  bits : BitVec 16
  deriving DecidableEq

namespace KeySet

def empty : KeySet := ⟨0⟩

instance : EmptyCollection KeySet := ⟨empty⟩

instance : Inhabited KeySet := ⟨empty⟩

def isEmpty (keys : KeySet) : Bool := keys.bits == 0

def contains (keys : KeySet) (key : Nat) : Bool := keys.bits.getLsbD key

/-- The set of one key; no set at all for a number that names no key. -/
def single? (key : Nat) : Option KeySet :=
  if key < 16 then some ⟨BitVec.twoPow 16 key⟩ else none

def insert (key : Nat) (keys : KeySet) : KeySet := ⟨keys.bits ||| BitVec.twoPow 16 key⟩

def erase (key : Nat) (keys : KeySet) : KeySet := ⟨keys.bits &&& ~~~ BitVec.twoPow 16 key⟩

def toList (keys : KeySet) : List Nat := (List.range 16).filter keys.contains

def lowest? (keys : KeySet) : Option Nat := (List.range 16).find? keys.contains

theorem ext_contains {a b : KeySet} (same : ∀ key, a.contains key = b.contains key) : a = b := by
  cases a
  cases b
  simp only [contains] at same
  congr
  exact BitVec.eq_of_getLsbD_eq fun key _ => same key

@[simp] theorem contains_empty (key : Nat) : (∅ : KeySet).contains key = false := by
  show (0 : BitVec 16).getLsbD key = false
  simp

theorem contains_of_ge {key : Nat} (outside : 16 ≤ key) (keys : KeySet) :
    keys.contains key = false := BitVec.getLsbD_of_ge keys.bits key outside

@[simp] theorem contains_insert (key other : Nat) (keys : KeySet) :
    (keys.insert key).contains other =
      (keys.contains other || (decide (other < 16) && decide (key = other))) := by
  simp [contains, insert, BitVec.getLsbD_twoPow]
  grind

@[simp] theorem contains_erase (key other : Nat) (keys : KeySet) :
    (keys.erase key).contains other = (keys.contains other && decide (key ≠ other)) := by
  simp [contains, erase, BitVec.getLsbD_twoPow]
  grind

end KeySet

inductive KeyEvent where
  | set (keys : KeySet)
  | press (key : Nat)
  | release (key : Nat)
  | releaseAll
  deriving DecidableEq

def KeySet.after (keys : KeySet) : KeyEvent → KeySet
  | .set new => new
  | .press key => keys.insert key
  | .release key => keys.erase key
  | .releaseAll => ∅

end Chip8
