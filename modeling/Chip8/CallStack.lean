/-!
# The call stack

Return addresses lie in thirty-two slots that fill from the last one down.  The
pointer names the slot of the latest address and is thirty-two when no call is open.
A return only moves the pointer; the slot keeps its address until a later call
writes over it.
-/

set_option autoImplicit false

namespace Chip8

structure CallStack where
  slots : Vector Nat 32
  pointer : Nat
  deriving DecidableEq

namespace CallStack

def empty : CallStack := ⟨Vector.replicate 32 0, 32⟩

def isFull (stack : CallStack) : Bool := stack.pointer == 0

def isEmpty (stack : CallStack) : Bool := 32 ≤ stack.pointer

def depth (stack : CallStack) : Nat := 32 - stack.pointer

def top? (stack : CallStack) : Option Nat := stack.slots[stack.pointer]?

/-- The return addresses of the open calls, the latest first. -/
def toList (stack : CallStack) : List Nat := stack.slots.toList.drop stack.pointer

/-- Open a call that returns to `address`; meant for a stack that is not full. -/
def push (address : Nat) (stack : CallStack) : CallStack :=
  ⟨stack.slots.setIfInBounds (stack.pointer - 1) address, stack.pointer - 1⟩

/-- Close the latest call; meant for a stack that is not empty. -/
def pop (stack : CallStack) : CallStack := { stack with pointer := stack.pointer + 1 }

@[simp] theorem toList_empty : empty.toList = [] := by
  simp [toList, empty]

@[simp] theorem length_toList (stack : CallStack) : stack.toList.length = stack.depth := by
  simp [toList, depth]

theorem toList_pop (stack : CallStack) : stack.pop.toList = stack.toList.tail := by
  simp [toList, pop]

theorem toList_push {stack : CallStack} (address : Nat) (room : 0 < stack.pointer)
    (sound : stack.pointer ≤ 32) : (stack.push address).toList = address :: stack.toList := by
  obtain ⟨⟨slots, size⟩, pointer⟩ := stack
  simp only at room sound
  have inside : pointer - 1 < slots.toList.length := by simp [size]; omega
  simp only [toList, push, Vector.toList]
  rw [show (Vector.setIfInBounds ⟨slots, size⟩ (pointer - 1) address).toArray.toList =
      slots.toList.set (pointer - 1) address by simp]
  rw [List.drop_eq_getElem_cons (by simpa using inside)]
  simp [show pointer - 1 + 1 = pointer by omega, List.drop_set]
  omega

theorem isEmpty_iff {stack : CallStack} : stack.isEmpty = true ↔ stack.depth = 0 := by
  simp only [isEmpty, depth, decide_eq_true_eq]
  omega

theorem isFull_iff {stack : CallStack} (sound : stack.pointer ≤ 32) :
    stack.isFull = true ↔ stack.depth = 32 := by
  simp only [isFull, depth, beq_iff_eq]
  omega

theorem toList_eq_cons {stack : CallStack} (inUse : stack.pointer < 32) :
    ∃ address, stack.top? = some address ∧ stack.toList = address :: stack.pop.toList := by
  refine ⟨stack.slots[stack.pointer], by simp [top?, inUse], ?_⟩
  simp only [toList, pop]
  rw [List.drop_eq_getElem_cons (by simpa using inUse)]
  simp

end CallStack

end Chip8
