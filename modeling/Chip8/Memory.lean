import Chip8.Config

/-!
# Memory

Memory is a row of bytes of fixed size.  The digits of the font lie at its start, a
program from address 0x200 on.  Writing replaces bytes and never changes the size.
-/

set_option autoImplicit false

namespace Chip8

structure Memory where
  bytes : Array UInt8
  deriving DecidableEq

namespace Memory

def programStart : Nat := 0x200

def fontStart : Nat := 0

/-- Rows, and so bytes, of a digit of the font. -/
def glyphHeight : Nat := 5

def font : List UInt8 :=
  [0xF0, 0x90, 0x90, 0x90, 0xF0,
    0x20, 0x60, 0x20, 0x20, 0x70,
    0xF0, 0x10, 0xF0, 0x80, 0xF0,
    0xF0, 0x10, 0xF0, 0x10, 0xF0,
    0x90, 0x90, 0xF0, 0x10, 0x10,
    0xF0, 0x80, 0xF0, 0x10, 0xF0,
    0xF0, 0x80, 0xF0, 0x90, 0xF0,
    0xF0, 0x10, 0x20, 0x40, 0x40,
    0xF0, 0x90, 0xF0, 0x90, 0xF0,
    0xF0, 0x90, 0xF0, 0x10, 0xF0,
    0xF0, 0x90, 0xF0, 0x90, 0x90,
    0xE0, 0x90, 0xE0, 0x90, 0xE0,
    0xF0, 0x80, 0x80, 0x80, 0xF0,
    0xE0, 0x90, 0x90, 0x90, 0xE0,
    0xF0, 0x80, 0xF0, 0x80, 0xF0,
    0xF0, 0x80, 0xF0, 0x80, 0x80]

def size (memory : Memory) : Nat := memory.bytes.size

def get? (memory : Memory) (address : Nat) : Option UInt8 := memory.bytes[address]?

/-- The byte at an address, zero past the end. -/
def byte (memory : Memory) (address : Nat) : UInt8 := (memory.get? address).getD 0

def block (memory : Memory) (start length : Nat) : List UInt8 :=
  (List.range length).map fun k => memory.byte (start + k)

/-- Replace the bytes from `start` on; what would lie past the end is dropped. -/
def write (start : Nat) : List UInt8 → Memory → Memory
  | [], memory => memory
  | byte :: rest, memory => write (start + 1) rest ⟨memory.bytes.setIfInBounds start byte⟩

/-- Memory of the given size with the font and a program in it and zero elsewhere. -/
def image (size : Nat) (program : List UInt8) : Memory :=
  ((⟨Array.replicate size 0⟩ : Memory).write fontStart font).write programStart program

def capacityOf (size : Nat) : Nat := size - programStart

@[simp] theorem size_write (start : Nat) (bytes : List UInt8) (memory : Memory) :
    (memory.write start bytes).size = memory.size := by
  induction bytes generalizing start memory with
  | nil => rfl
  | cons byte rest ih => rw [write, ih]; simp [size]

@[simp] theorem size_image (size : Nat) (program : List UInt8) :
    (image size program).size = size := by
  rw [image, size_write, size_write]
  simp [Memory.size]

@[simp] theorem length_block (memory : Memory) (start length : Nat) :
    (memory.block start length).length = length := by
  simp [block]

theorem getElem?_block (memory : Memory) (start : Nat) {length k : Nat} (inside : k < length) :
    (memory.block start length)[k]? = some (memory.byte (start + k)) := by
  simp [block, inside]

/-- A write replaces exactly the bytes of its window that memory has. -/
theorem get?_write (start : Nat) (bytes : List UInt8) (memory : Memory) (address : Nat) :
    (memory.write start bytes).get? address =
      if start ≤ address ∧ address < start + bytes.length ∧ address < memory.size then
        bytes[address - start]?
      else
        memory.get? address := by
  induction bytes generalizing start memory with
  | nil => simp [write]; omega
  | cons byte rest ih =>
      rw [write, ih]
      simp only [size, get?, Array.size_setIfInBounds, List.length_cons,
        Array.getElem?_setIfInBounds]
      by_cases here : start = address
      · subst here
        rw [if_neg (by omega)]
        by_cases inside : start < memory.bytes.size <;> simp [inside]
      · by_cases later : start + 1 ≤ address
        · have shift : address - start = address - (start + 1) + 1 := by omega
          rw [shift, List.getElem?_cons_succ]
          grind
        · grind

/-- Memory begins with the font, the program lies behind the reserved page, and the rest is
zero. -/
theorem byte_image {size address : Nat} (program : List UInt8) (inside : address < size) :
    (image size program).byte address =
      if address < font.length then font.getD address 0
      else if programStart ≤ address then program.getD (address - programStart) 0
      else 0 := by
  have reserved : font.length ≤ programStart := by decide
  have blank : (⟨Array.replicate size 0⟩ : Memory).size = size := Array.size_replicate
  have zero : (⟨Array.replicate size 0⟩ : Memory).get? address = some 0 := by
    simp [get?, inside]
  simp only [byte, image, get?_write, size_write, blank, zero, inside, and_true, fontStart,
    Nat.zero_le, true_and, Nat.zero_add, Nat.sub_zero, List.getD_eq_getElem?_getD]
  by_cases low : address < font.length
  · have early : ¬ programStart ≤ address := by omega
    simp [low, early]
  · by_cases high : programStart ≤ address
    · by_cases loaded : address < programStart + program.length
      · simp [low, high, loaded]
      · have past : program.length ≤ address - programStart := by omega
        simp [low, high, loaded, past]
    · simp [low, high]

end Memory

end Chip8
