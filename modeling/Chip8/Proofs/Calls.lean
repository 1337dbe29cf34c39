import Chip8.Proofs.Reset

/-!
# Calls and returns

Which calls are open can be told without a look at the call stack: a call opens one and a
return closes the latest, as on a list with room for thirty-two.  The call stack always
holds that list.  Nothing but a call and a return touches it, so a return finds what the
matching call left, whatever ran in between.
-/

set_option autoImplicit false

namespace Chip8

namespace Instruction

def callWord (target : Fin 4096) : UInt16 := UInt16.ofNat (0x2000 + target)

def retWord : UInt16 := 0x00EE

theorem decode?_callWord (target : Fin 4096) :
    decode? (callWord target) = some (.call target) := by
  have small : 0x2000 + target.val < UInt16.size :=
    Nat.lt_of_lt_of_le (Nat.add_lt_add_left target.isLt _) (by decide)
  have value : (callWord target).toNat = 0x2000 + target := UInt16.toNat_ofNat_of_lt' small
  have family : family (callWord target) = 0x2 := by
    rw [Instruction.family, value]
    omega
  have address : fieldAddress (callWord target) = target := by
    rw [fieldAddress, value]
    omega
  simp only [decode?, family, address]

theorem decode?_retWord : decode? retWord = some .ret := by decide

end Instruction

namespace Machine

variable {w h : Nat}

/-! ## The calls that are open -/

/-- The instruction that the next cycle comes to, whether or not it is then refused. -/
def next? (m : Machine w h) : Option Instruction :=
  if m.isOk && !m.isWaiting then m.fetch?.bind Instruction.decode? else none

/-- The return addresses of the calls open after a cycle, the latest first, from those open
before it. -/
def callsAfterCycle (m : Machine w h) (calls : List Nat) : List Nat :=
  match m.next? with
  | some (.call _) =>
      if calls.length < 32 then (m.pc + Instruction.width) :: calls else calls
  | some .ret => calls.tail
  | _ => calls

def callsAfter (m : Machine w h) (calls : List Nat) : Interaction → List Nat
  | .act (.load _) | .act (.loadStream _) => []
  | .act (.cycle _) => m.callsAfterCycle calls
  | .act (.invalidate _) | .act .validate | .write _ _ _ => calls

def openCalls (m : Machine w h) (calls : List Nat) : List Interaction → List Nat
  | [] => calls
  | interaction :: later =>
      (m.interact interaction).openCalls (m.callsAfter calls interaction) later

theorem next?_of_meets {m : Machine w h} {word : UInt16} (meets : m.Meets word) :
    m.next? = Instruction.decode? word := by
  simp [next?, meets.ok, isWaiting, meets.running, meets.fetched]

theorem executes?_eq_filter (m : Machine w h) :
    m.executes? = m.next?.filter fun instruction => (m.advance.refusal? instruction).isNone := by
  unfold executes? next?
  split
  · rfl
  · rfl

theorem executes?_of_next {m : Machine w h} {instruction : Instruction}
    (next : m.next? = some instruction)
    (accepted : m.advance.refusal? instruction = none) : m.executes? = some instruction := by
  rw [executes?_eq_filter, next, Option.filter_some, accepted]
  rfl

theorem executes?_of_refused {m : Machine w h} {instruction : Instruction} {fault : Fault}
    (next : m.next? = some instruction)
    (refusal : m.advance.refusal? instruction = some fault) : m.executes? = none := by
  rw [executes?_eq_filter, next, Option.filter_some, refusal]
  rfl

theorem executes?_eq_none_or {m : Machine w h} {instruction : Instruction}
    (next : m.next? = some instruction) :
    m.executes? = none ∨ m.executes? = some instruction := by
  cases refusal : m.advance.refusal? instruction with
  | none => exact .inr (executes?_of_next next refusal)
  | some fault => exact .inl (executes?_of_refused next refusal)

theorem refusal?_call {m : Machine w h} (sound : m.stack.pointer ≤ 32) (target : Nat) :
    m.refusal? (.call target) = if m.stack.depth = 32 then some .stackOverflow else none := by
  simp only [refusal?, CallStack.isFull_iff sound]

theorem refusal?_ret (m : Machine w h) :
    m.refusal? .ret = if m.stack.depth = 0 then some .stackUnderflow else none := by
  simp only [refusal?, CallStack.isEmpty_iff]

/-- The call stack goes the way of the list. -/
theorem toList_cycle (keys : KeySet) {m : Machine w h} (sound : m.stack.pointer ≤ 32) :
    (m.cycle keys).1.stack.toList = m.callsAfterCycle m.stack.toList := by
  rw [(m.cycle_effect keys).stack, callsAfterCycle]
  cases next : m.next? with
  | none =>
      rw [executes?_eq_filter, next]
      rfl
  | some instruction =>
      -- A refused call or return must leave the list as it is, and only these can be refused
      -- for the state of the stack; about the others it does not matter.
      cases instruction with
      | call target =>
          have refusal := refusal?_call (m := m.advance) sound target
          simp only [CallStack.length_toList]
          by_cases full : m.stack.depth = 32
          · rw [executes?_of_refused next (refusal.trans (if_pos full)), if_neg (by omega)]
            rfl
          · have shallow : m.stack.depth ≤ 32 := Nat.sub_le _ _
            have used : 0 < m.stack.pointer := by
              rw [CallStack.depth] at full
              omega
            rw [executes?_of_next next (refusal.trans (if_neg full)), if_pos (by omega)]
            exact CallStack.toList_push _ used sound
      | ret =>
          have refusal := m.advance.refusal?_ret
          by_cases empty : m.stack.depth = 0
          · have none : m.stack.toList = [] := by
              rw [← List.length_eq_zero_iff, CallStack.length_toList, empty]
            rw [executes?_of_refused next (refusal.trans (if_pos empty)), Option.elim_none, none]
            rfl
          · rw [executes?_of_next next (refusal.trans (if_neg empty))]
            exact CallStack.toList_pop _
      | _ =>
          rcases executes?_eq_none_or next with refused | accepted
          · rw [refused]
            rfl
          · rw [accepted]
            rfl

theorem toList_interact {m : Machine w h} (sound : m.stack.pointer ≤ 32)
    (interaction : Interaction) :
    (m.interact interaction).stack.toList = m.callsAfter m.stack.toList interaction := by
  cases interaction with
  | act action =>
      cases action with
      | load program => exact CallStack.toList_empty
      | loadStream stream => exact CallStack.toList_empty
      | cycle keys => exact toList_cycle keys sound
      | invalidate area => rfl
      | validate => rfl
  | write row offset bytes => rfl

theorem toList_through (history : List Interaction) {m : Machine w h}
    (wellFormed : m.WellFormed) :
    (m.through history).stack.toList = m.openCalls m.stack.toList history := by
  induction history generalizing m with
  | nil => rfl
  | cons interaction later ih =>
      rw [through, openCalls, ih (wellFormed.interact interaction),
        toList_interact wellFormed.stack.pointer]

/-! ## The way from a call to its return -/

def Interaction.isLoad : Interaction → Bool
  | .act (.load _) | .act (.loadStream _) => true
  | .act (.cycle _) | .act (.invalidate _) | .act .validate | .write _ _ _ => false

/-- What lies deep enough in the stack stays where it is. -/
theorem suffix_interact {base : List Nat} {m : Machine w h} (sound : m.stack.pointer ≤ 32)
    {interaction : Interaction} (going : interaction.isLoad = false)
    (suffix : base <:+ m.stack.toList)
    (deep : base.length ≤ (m.interact interaction).stack.depth) :
    base <:+ (m.interact interaction).stack.toList := by
  rw [← CallStack.length_toList] at deep
  rw [toList_interact sound] at deep ⊢
  cases interaction with
  | act action =>
      cases action with
      | load program => cases going
      | loadStream stream => cases going
      | cycle keys =>
          simp only [callsAfter, callsAfterCycle] at deep ⊢
          split
          · split
            · exact suffix.trans (List.suffix_cons _ _)
            · exact suffix
          · rename_i returns
            simp only [returns] at deep
            exact List.suffix_of_suffix_length_le suffix (List.tail_suffix _) deep
          · exact suffix
      | invalidate area => exact suffix
      | validate => exact suffix
  | write row offset bytes => exact suffix

theorem suffix_through {base : List Nat} (later : List Interaction) {m : Machine w h}
    (wellFormed : m.WellFormed) (going : ∀ interaction ∈ later, interaction.isLoad = false)
    (suffix : base <:+ m.stack.toList)
    (deep : ∀ i ≤ later.length, base.length ≤ (m.through (later.take i)).stack.depth) :
    base <:+ (m.through later).stack.toList := by
  induction later generalizing m with
  | nil => exact suffix
  | cons interaction rest ih =>
      obtain ⟨first, restGoing⟩ := List.forall_mem_cons.mp going
      have next : base <:+ (m.interact interaction).stack.toList :=
        suffix_interact wellFormed.stack.pointer first suffix (deep 1 (Nat.succ_pos _))
      apply ih (wellFormed.interact interaction) restGoing next
      intro i within
      exact deep (i + 1) (Nat.succ_le_succ within)

theorem fault_cycle_of_call (keys : KeySet) {m : Machine w h} (sound : m.stack.pointer ≤ 32)
    {target : Fin 4096} (meets : m.Meets (Instruction.callWord target)) :
    (m.cycle keys).1.fault = some .stackOverflow ↔ m.stack.depth = 32 := by
  have refusal := refusal?_call (m := m.advance) sound target
  rw [fault_cycle_iff_refused keys meets (Instruction.decode?_callWord target) (by decide), refusal,
    Option.ite_none_right_eq_some]
  exact and_iff_left rfl

theorem fault_cycle_of_ret (keys : KeySet) {m : Machine w h}
    (meets : m.Meets Instruction.retWord) :
    (m.cycle keys).1.fault = some .stackUnderflow ↔ m.stack.depth = 0 := by
  rw [fault_cycle_iff_refused keys meets Instruction.decode?_retWord (by decide), refusal?_ret,
    Option.ite_none_right_eq_some]
  exact and_iff_left rfl

theorem toList_cycle_of_call (keys : KeySet) {m : Machine w h} (sound : m.stack.pointer ≤ 32)
    {target : Fin 4096} (meets : m.Meets (Instruction.callWord target))
    (ok : (m.cycle keys).1.isOk = true) :
    (m.cycle keys).1.stack.toList = (m.pc + Instruction.width) :: m.stack.toList := by
  have next := next?_of_meets meets
  have unfaulted : (m.cycle keys).1.fault = none := Option.isNone_iff_eq_none.mp ok
  have room : m.stack.toList.length < 32 := by
    have shallow : m.stack.depth ≤ 32 := Nat.sub_le _ _
    have full := fault_cycle_of_call keys sound meets
    rw [unfaulted] at full
    rw [CallStack.length_toList]
    have notFull : m.stack.depth ≠ 32 := fun isFull => by simpa using full.mpr isFull
    omega
  rw [toList_cycle keys sound, callsAfterCycle, next, Instruction.decode?_callWord]
  exact if_pos room

theorem toList_cycle_of_ret (keys : KeySet) {m : Machine w h} (sound : m.stack.pointer ≤ 32)
    (meets : m.Meets Instruction.retWord) :
    (m.cycle keys).1.stack.toList = m.stack.toList.tail := by
  have next := next?_of_meets meets
  rw [Instruction.decode?_retWord] at next
  simp only [toList_cycle keys sound, callsAfterCycle, next]

/-- A return goes to the latest address on the stack. -/
theorem cycle_of_ret (keys : KeySet) {m : Machine w h} {address : Nat} {outer : List Nat}
    (meets : m.Meets Instruction.retWord) (calls : m.stack.toList = address :: outer) :
    (m.cycle keys).1.pc = address ∧
      (m.cycle keys).1.fault =
        if address < m.memory.size then none else some .outOfBounds := by
  have depth : m.stack.depth = outer.length + 1 := by
    rw [← CallStack.length_toList, calls, List.length_cons]
  have some : m.stack.depth ≠ 0 := by omega
  have inUse : m.stack.pointer < 32 := by
    rw [CallStack.depth] at some
    omega
  obtain ⟨top, onTop, list⟩ := CallStack.toList_eq_cons inUse
  obtain ⟨rfl, _⟩ := List.cons.inj (calls.symm.trans list)
  have target : ({ m with keys }.advance.perform .ret).pc = address := by
    show m.stack.top?.getD _ = address
    rw [onTop]
    rfl
  have refusal := m.advance.refusal?_ret
  have accepted := cycle_of_accepted keys meets Instruction.decode?_retWord
    (refusal.trans (if_neg some)) rfl
  rw [target] at accepted
  exact accepted

/-- A machine that carries out a call under `keys` and, when `later` has happened, comes to a
return that is the first to bring the depth back to what it was. -/
structure Matches (m : Machine w h) (keys : KeySet) (later : List Interaction)
    (lastKeys : KeySet) : Prop where
  called : ∃ target, m.Meets (Instruction.callWord target)
  ok : (m.cycle keys).1.isOk = true
  going : ∀ interaction ∈ later, interaction.isLoad = false
  deep : ∀ i ≤ later.length,
    m.stack.depth < ((m.cycle keys).1.through (later.take i)).stack.depth
  returns : ((m.cycle keys).1.through later).Meets Instruction.retWord
  back : (((m.cycle keys).1.through later).cycle lastKeys).1.stack.depth = m.stack.depth

/-- Before the return that matches a call, the stack is as the call left it. -/
theorem Matches.toList_eq {m : Machine w h} {keys lastKeys : KeySet} {later : List Interaction}
    (wellFormed : m.WellFormed) (matching : m.Matches keys later lastKeys) :
    ((m.cycle keys).1.through later).stack.toList =
      (m.pc + Instruction.width) :: m.stack.toList := by
  obtain ⟨⟨target, meets⟩, ok, going, deep, returns, back⟩ := matching
  have opened := toList_cycle_of_call keys wellFormed.stack.pointer meets ok
  have lastSound := ((wellFormed.cycle keys).through later).stack.pointer
  have kept : (m.cycle keys).1.stack.toList <:+ ((m.cycle keys).1.through later).stack.toList := by
    apply suffix_through later (wellFormed.cycle keys) going (List.suffix_refl _)
    intro i within
    rw [opened, List.length_cons, CallStack.length_toList]
    exact deep i within
  have popped := congrArg List.length (toList_cycle_of_ret lastKeys lastSound returns)
  have above := deep later.length (Nat.le_refl _)
  rw [opened] at kept
  -- The return takes one address and ends at the old depth, so none lies on top of the call's.
  refine (kept.eq_of_length ?_).symm
  rw [List.length_tail, CallStack.length_toList, CallStack.length_toList, back] at popped
  rw [List.take_length] at above
  rw [List.length_cons, CallStack.length_toList, CallStack.length_toList]
  omega

/-- The call stack holds exactly the calls that are open, a call is refused when thirty-two
are and a return when none is; and the return that matches a call goes to the word behind it,
which is a fault at the end of memory only. -/
theorem returns_match_calls (config : Config) (history : List Interaction) :
    let new : Machine w h := .new config
    let m := new.through history
    let calls := new.openCalls [] history
    m.stack.toList = calls ∧ m.stack.depth = calls.length ∧
      (∀ keys target, m.Meets (Instruction.callWord target) →
        ((m.cycle keys).1.fault = some .stackOverflow ↔ calls.length = 32)) ∧
      (∀ keys, m.Meets Instruction.retWord →
        ((m.cycle keys).1.fault = some .stackUnderflow ↔ calls = [])) ∧
      ∀ keys later lastKeys, m.Matches keys later lastKeys →
        let returned := (((m.cycle keys).1.through later).cycle lastKeys).1
        returned.pc = m.pc + 2 ∧
          returned.fault = if m.pc + 2 < m.memory.size then none else some .outOfBounds := by
  intro new m calls
  have fresh : new.WellFormed := new_wellFormed config
  have wellFormed : m.WellFormed := fresh.through history
  have held : m.stack.toList = calls := toList_through history fresh
  have depth : m.stack.depth = calls.length := by
    rw [← CallStack.length_toList, held]
  refine ⟨held, depth, ?_, ?_, ?_⟩
  · intro keys target meets
    rw [← depth]
    exact fault_cycle_of_call keys wellFormed.stack.pointer meets
  · intro keys meets
    rw [← List.length_eq_zero_iff, ← depth]
    exact fault_cycle_of_ret keys meets
  · intro keys later lastKeys matching
    have list := matching.toList_eq wellFormed
    have loadable : m.Loadable config := (new_loadable config).through history
    have size : ((m.cycle keys).1.through later).memory.size = m.memory.size :=
      ((loadable.after (.cycle keys)).through later).size.trans loadable.size.symm
    rw [← size]
    exact cycle_of_ret lastKeys matching.returns list

/-- A call in the last word of memory, whose return is carried out after a nested call and
then finds no memory to go on in. -/
theorem returns_match_calls_at_end :
    let history : List Interaction :=
      [.act (.load [0x12, 0x08, 0x22, 0x06, 0x00, 0xEE, 0x00, 0xEE, 0x22, 0x02]),
        .act (.cycle ∅)]
    let later : List Interaction :=
      [.act (.cycle ⟨0x0001⟩), .write 0 0 [0xFF], .act (.cycle ∅)]
    let m : Machine 8 4 := (new { memorySize := 0x20A }).through history
    m.pc + 2 = m.memory.size ∧ m.Meets (Instruction.callWord 0x202) ∧ m.Matches ∅ later ∅ ∧
      (((m.cycle ∅).1.through later).cycle ∅).1.pc = m.pc + 2 ∧
      (((m.cycle ∅).1.through later).cycle ∅).1.fault = some .outOfBounds := by
  intro history later m
  have facts : m.pc + 2 = m.memory.size ∧ m.Meets (Instruction.callWord 0x202) ∧
      (m.cycle ∅).1.isOk = true ∧ (∀ interaction ∈ later, interaction.isLoad = false) ∧
      (∀ i ≤ later.length,
        m.stack.depth < ((m.cycle ∅).1.through (later.take i)).stack.depth) ∧
      ((m.cycle ∅).1.through later).Meets Instruction.retWord ∧
      (((m.cycle ∅).1.through later).cycle ∅).1.stack.depth = m.stack.depth := by
    decide +kernel
  obtain ⟨atEnd, meets, ok, going, deep, returns, back⟩ := facts
  have matching : m.Matches ∅ later ∅ := ⟨⟨0x202, meets⟩, ok, going, deep, returns, back⟩
  have matched : ∀ keys later lastKeys, m.Matches keys later lastKeys →
      (((m.cycle keys).1.through later).cycle lastKeys).1.pc = m.pc + 2 ∧
        (((m.cycle keys).1.through later).cycle lastKeys).1.fault =
          if m.pc + 2 < m.memory.size then none else some .outOfBounds :=
    (returns_match_calls { memorySize := 0x20A } history).2.2.2.2
  obtain ⟨pc, fault⟩ := matched ∅ later ∅ matching
  rw [if_neg (Nat.not_lt_of_le (Nat.le_of_eq atEnd.symm))] at fault
  exact ⟨atEnd, meets, matching, pc, fault⟩

end Machine

end Chip8
