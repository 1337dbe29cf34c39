import Mathlib.Tactic.Choose
import Chip8.KeySet

/-!
# A keypad with several writers

Several writers make calls on one keypad: each makes its own in order, and a call takes effect at
one go, but which writer comes next is left open.  Whatever the order, a key is as the last call
that affects it has left it; no call is lost to another one.  So if no two writers use the same
key, a key does not depend on the order at all, only on the last call that its writer makes on it.
-/

set_option autoImplicit false

namespace Chip8

/-! ## What a call does to a key -/

namespace KeyEvent

/-- Whether a call leaves a key down or up; nothing if it does not affect the key. -/
def effect? (key : Nat) : KeyEvent → Option Bool
  | .set keys => some (keys.contains key)
  | .press other => if other = key then some true else none
  | .release other => if other = key then some false else none
  | .releaseAll => some false

def lastEffect? (key : Nat) (events : List KeyEvent) : Option Bool :=
  (events.filterMap (effect? key)).getLast?

theorem lastEffect?_concat (key : Nat) (events : List KeyEvent) (event : KeyEvent) :
    lastEffect? key (events ++ [event]) = (event.effect? key).or (lastEffect? key events) := by
  rw [lastEffect?, List.filterMap_append, List.getLast?_append]
  cases effect : event.effect? key <;> simp [effect, lastEffect?]

def Uses (key : Nat) (events : List KeyEvent) : Prop :=
  .press key ∈ events ∨ .release key ∈ events

theorem isSome_lastEffect? {key : Nat} {events : List KeyEvent} (uses : Uses key events) :
    (lastEffect? key events).isSome = true := by
  have affected : ∃ event ∈ events, ∃ down, event.effect? key = some down := by
    rcases uses with pressed | released
    · exact ⟨_, pressed, true, if_pos rfl⟩
    · exact ⟨_, released, false, if_pos rfl⟩
  obtain ⟨event, member, down, effect⟩ := affected
  rw [lastEffect?, List.getLast?_isSome]
  exact List.ne_nil_of_mem (List.mem_filterMap.mpr ⟨event, member, effect⟩)

theorem lastEffect?_eq_none {key : Nat} {events : List KeyEvent}
    (unaffected : ∀ event ∈ events, event.effect? key = none) : lastEffect? key events = none := by
  rw [lastEffect?, List.filterMap_eq_nil_iff.mpr unaffected]
  rfl

theorem effect?_eq_none_iff {key : Nat} {event : KeyEvent}
    (single : ∃ other, event = .press other ∨ event = .release other) :
    event.effect? key = none ↔ event ≠ .press key ∧ event ≠ .release key := by
  obtain ⟨other, rfl | rfl⟩ := single <;> simp [effect?]

end KeyEvent

namespace KeySet

/-- A call changes a key as far as it affects it. -/
theorem contains_after {key : Nat} (named : key < 16) (keys : KeySet) (event : KeyEvent) :
    (keys.after event).contains key = (event.effect? key).getD (keys.contains key) := by
  cases event with
  | set new => rfl
  | press other =>
      by_cases same : other = key <;> simp [after, KeyEvent.effect?, named, same]
  | release other =>
      by_cases same : other = key <;> simp [after, KeyEvent.effect?, same]
  | releaseAll => exact contains_empty key

/-! The mask of a key is joined to the keys or taken from them.  A number that names no key has
no mask. -/

theorem single?_of_ge {key : Nat} (outside : 16 ≤ key) : single? key = none :=
  if_neg (Nat.not_lt_of_le outside)

theorem after_press (keys : KeySet) (key : Nat) :
    keys.after (.press key) = (single? key).elim keys fun one => ⟨keys.bits ||| one.bits⟩ := by
  unfold single?
  split
  · rfl
  · rename_i outside
    apply ext_contains
    intro other
    have apart : ¬ (other < 16 ∧ key = other) := by omega
    rw [after, contains_insert, ← Bool.decide_and, decide_eq_false apart, Bool.or_false]
    rfl

theorem after_release (keys : KeySet) (key : Nat) :
    keys.after (.release key) =
      (single? key).elim keys fun one => ⟨keys.bits &&& ~~~ one.bits⟩ := by
  unfold single?
  split
  · rfl
  · rename_i outside
    apply ext_contains
    intro other
    rw [after, contains_erase, Option.elim_none]
    by_cases same : key = other
    · rw [contains_of_ge (by omega), Bool.false_and]
    · rw [decide_eq_true same, Bool.and_true]

end KeySet

/-! ## Writers -/

/-- A keypad and the calls that each writer has yet to make on it, in order. -/
structure SharedKeypad (Writer : Type) where
  keys : KeySet
  pending : Writer → List KeyEvent

namespace SharedKeypad

variable {Writer : Type}

def start (calls : Writer → List KeyEvent) : SharedKeypad Writer := ⟨∅, calls⟩

def IsDone (pad : SharedKeypad Writer) : Prop := ∀ writer, pad.pending writer = []

/-- A writer makes its next call; the others wait meanwhile. -/
structure Step (pad : SharedKeypad Writer) (call : Writer × KeyEvent)
    (after : SharedKeypad Writer) : Prop where
  next : pad.pending call.1 = call.2 :: after.pending call.1
  others : ∀ other ≠ call.1, after.pending other = pad.pending other
  keys : after.keys = pad.keys.after call.2

inductive Runs (pad : SharedKeypad Writer) : List (Writer × KeyEvent) → SharedKeypad Writer → Prop
  | idle : Runs pad [] pad
  | call {order call now after} (before : Runs pad order now) (step : Step now call after) :
      Runs pad (order ++ [call]) after

/-- After any calls a key is as the last of them that affects it has left it. -/
theorem Runs.contains {pad now : SharedKeypad Writer} {order : List (Writer × KeyEvent)}
    (runs : Runs pad order now) {key : Nat} (named : key < 16) :
    now.keys.contains key =
      (KeyEvent.lastEffect? key (order.map Prod.snd)).getD (pad.keys.contains key) := by
  induction runs with
  | idle => rfl
  | call before step ih =>
      rename_i call now after
      rw [step.keys, KeySet.contains_after named, ih, List.map_append, List.map_singleton,
        KeyEvent.lastEffect?_concat]
      cases call.2.effect? key <;> rfl

theorem Runs.head {pad next now : SharedKeypad Writer} {call : Writer × KeyEvent}
    {order : List (Writer × KeyEvent)} (step : Step pad call next) (runs : Runs next order now) :
    Runs pad (call :: order) now := by
  induction runs with
  | idle => exact .call .idle step
  | call before last ih => exact .call ih last

/-- Writers only press and release keys, and no two of them use the same key. -/
structure Unshared (calls : Writer → List KeyEvent) : Prop where
  single : ∀ writer, ∀ event ∈ calls writer, ∃ key, event = .press key ∨ event = .release key
  own : ∀ key < 16, ∀ writer other, KeyEvent.Uses key (calls writer) →
    KeyEvent.Uses key (calls other) → writer = other

theorem Unshared.effect?_eq_none {calls : Writer → List KeyEvent} (unshared : Unshared calls)
    {key : Nat} {writer : Writer} (unused : ¬ KeyEvent.Uses key (calls writer)) :
    ∀ event ∈ calls writer, event.effect? key = none := by
  intro event member
  rw [KeyEvent.effect?_eq_none_iff (unshared.single writer event member)]
  constructor
  · rintro rfl
    exact unused (.inl member)
  · rintro rfl
    exact unused (.inr member)

section Orders

variable [DecidableEq Writer]

def callsOf (writer : Writer) (order : List (Writer × KeyEvent)) : List KeyEvent :=
  (order.filter fun call => call.1 = writer).map Prod.snd

theorem callsOf_append (writer : Writer) (order more : List (Writer × KeyEvent)) :
    callsOf writer (order ++ more) = callsOf writer order ++ callsOf writer more := by
  rw [callsOf, List.filter_append, List.map_append]
  rfl

theorem callsOf_singleton (writer : Writer) (call : Writer × KeyEvent) :
    callsOf writer [call] = if call.1 = writer then [call.2] else [] := by
  by_cases same : call.1 = writer <;> simp [callsOf, same]

theorem Step.callsOf_append_pending {pad after : SharedKeypad Writer} {call : Writer × KeyEvent}
    (step : Step pad call after) (writer : Writer) :
    callsOf writer [call] ++ after.pending writer = pad.pending writer := by
  rw [callsOf_singleton]
  by_cases own : call.1 = writer
  · rw [if_pos own, ← own]
    exact step.next.symm
  · rw [if_neg own]
    exact step.others writer (Ne.symm own)

theorem Runs.callsOf_append_pending {pad now : SharedKeypad Writer}
    {order : List (Writer × KeyEvent)} (runs : Runs pad order now) (writer : Writer) :
    callsOf writer order ++ now.pending writer = pad.pending writer := by
  induction runs with
  | idle => rfl
  | call before step ih =>
      rw [callsOf_append, List.append_assoc, step.callsOf_append_pending, ih]

theorem callsOf_cons (writer : Writer) (call : Writer × KeyEvent)
    (order : List (Writer × KeyEvent)) :
    callsOf writer (call :: order) = callsOf writer [call] ++ callsOf writer order :=
  callsOf_append writer [call] order

/-- Any order of calls comes about in which each writer makes the calls that it has to, as far as
it gets. -/
theorem exists_runs (pad : SharedKeypad Writer) {order : List (Writer × KeyEvent)}
    (allowed : ∀ writer, callsOf writer order <+: pad.pending writer) :
    ∃ now, Runs pad order now := by
  induction order generalizing pad with
  | nil => exact ⟨pad, .idle⟩
  | cons call order ih =>
      have split : ∀ writer, ∃ rest, callsOf writer [call] ++ rest = pad.pending writer ∧
          callsOf writer order <+: rest := by
        intro writer
        obtain ⟨rest, whole⟩ := allowed writer
        rw [callsOf_cons, List.append_assoc] at whole
        exact ⟨_, whole, rest, rfl⟩
      choose rest whole remains using split
      have step : Step pad call ⟨pad.keys.after call.2, rest⟩ := by
        refine ⟨?_, ?_, rfl⟩
        · rw [← whole, callsOf_singleton, if_pos rfl]
          rfl
        · intro other apart
          rw [← whole, callsOf_singleton, if_neg (Ne.symm apart)]
          rfl
      obtain ⟨now, runs⟩ := ih ⟨pad.keys.after call.2, rest⟩ remains
      exact ⟨now, runs.head step⟩

/-- Calls that all come from one writer as far as they affect a key. -/
theorem lastEffect?_callsOf {key : Nat} {writer : Writer} {order : List (Writer × KeyEvent)}
    (own : ∀ call ∈ order, call.1 ≠ writer → call.2.effect? key = none) :
    KeyEvent.lastEffect? key (callsOf writer order) =
      KeyEvent.lastEffect? key (order.map Prod.snd) := by
  have same : (callsOf writer order).filterMap (KeyEvent.effect? key) =
      (order.map Prod.snd).filterMap (KeyEvent.effect? key) := by
    induction order with
    | nil => rfl
    | cons call order ih =>
        obtain ⟨first, others⟩ := List.forall_mem_cons.mp own
        rw [callsOf_cons, callsOf_singleton, List.filterMap_append, ih others]
        by_cases mine : call.1 = writer
        · rw [if_pos mine, ← List.filterMap_append]
          rfl
        · rw [if_neg mine, List.map_cons, List.filterMap_cons_none (first mine)]
          rfl
  rw [KeyEvent.lastEffect?, same]
  rfl

theorem mem_callsOf {call : Writer × KeyEvent} {order : List (Writer × KeyEvent)}
    (made : call ∈ order) : call.2 ∈ callsOf call.1 order :=
  List.mem_map_of_mem (List.mem_filter.mpr ⟨made, decide_eq_true rfl⟩)

variable {calls : Writer → List KeyEvent} {order : List (Writer × KeyEvent)}
  {now : SharedKeypad Writer} {key : Nat}

theorem Runs.callsOf_eq (runs : Runs (start calls) order now) (done : now.IsDone)
    (writer : Writer) : callsOf writer order = calls writer := by
  have whole := runs.callsOf_append_pending writer
  rw [done writer, List.append_nil] at whole
  exact whole

/-- Once all calls are made, a key is as its writer's last call on it has left it. -/
theorem Runs.lastEffect?_eq (runs : Runs (start calls) order now) (done : now.IsDone)
    (unshared : Unshared calls) (named : key < 16) {writer : Writer}
    (uses : KeyEvent.Uses key (calls writer)) :
    KeyEvent.lastEffect? key (calls writer) = some (now.keys.contains key) := by
  have own : ∀ call ∈ order, call.1 ≠ writer → call.2.effect? key = none := by
    intro call made apart
    apply unshared.effect?_eq_none (fun shared => apart (unshared.own key named _ _ shared uses))
    rw [← runs.callsOf_eq done]
    exact mem_callsOf made
  obtain ⟨down, last⟩ := Option.isSome_iff_exists.mp (KeyEvent.isSome_lastEffect? uses)
  rw [runs.contains named, ← lastEffect?_callsOf own, runs.callsOf_eq done, last]
  rfl

theorem Runs.contains_of_unused (runs : Runs (start calls) order now) (done : now.IsDone)
    (unshared : Unshared calls) (named : key < 16)
    (unused : ∀ writer, ¬ KeyEvent.Uses key (calls writer)) : now.keys.contains key = false := by
  have unaffected : ∀ event ∈ order.map Prod.snd, event.effect? key = none := by
    intro event member
    obtain ⟨call, made, rfl⟩ := List.mem_map.mp member
    apply unshared.effect?_eq_none (unused call.1)
    rw [← runs.callsOf_eq done]
    exact mem_callsOf made
  rw [runs.contains named, KeyEvent.lastEffect?_eq_none unaffected]
  exact KeySet.contains_empty key

/-- The keys that are down in the end do not depend on the order of the calls. -/
theorem Runs.keys_eq (runs : Runs (start calls) order now) (done : now.IsDone)
    (unshared : Unshared calls) {other : List (Writer × KeyEvent)} {final : SharedKeypad Writer}
    (others : Runs (start calls) other final) (finished : final.IsDone) :
    final.keys = now.keys := by
  apply KeySet.ext_contains
  intro key
  rcases Nat.lt_or_ge key 16 with named | outside
  · by_cases used : ∃ writer, KeyEvent.Uses key (calls writer)
    · obtain ⟨writer, uses⟩ := used
      have last := runs.lastEffect?_eq done unshared named uses
      rw [others.lastEffect?_eq finished unshared named uses] at last
      exact Option.some.inj last
    · have unused := not_exists.mp used
      rw [runs.contains_of_unused done unshared named unused,
        others.contains_of_unused finished unshared named unused]
  · rw [KeySet.contains_of_ge outside, KeySet.contains_of_ge outside]

/-- Calls on a keypad that several writers share.  They can be made in any order that keeps each
writer's own.  After each of them a key is as the last call that affects it has left it, and up
if there was none; calls on numbers that name no key change nothing.  If no two writers use the
same key, the keys are in the end the same for all orders, each as its writer's last call on it
has left it. -/
theorem shared_keypad_exact (calls : Writer → List KeyEvent) :
    (∀ order, (∃ now, Runs (start calls) order now) ↔
      ∀ writer, callsOf writer order <+: calls writer) ∧
    (∀ order now, Runs (start calls) order now → ∀ key < 16,
      now.keys.contains key = (KeyEvent.lastEffect? key (order.map Prod.snd)).getD false) ∧
    (∀ (pad after : SharedKeypad Writer) call key, Step pad call after → 16 ≤ key →
      call.2 = .press key ∨ call.2 = .release key → after.keys = pad.keys) ∧
    (Unshared calls → ∀ order now, Runs (start calls) order now → now.IsDone →
      (∀ key < 16, ∀ writer, KeyEvent.Uses key (calls writer) →
        KeyEvent.lastEffect? key (calls writer) = some (now.keys.contains key)) ∧
      ∀ other final, Runs (start calls) other final → final.IsDone → final.keys = now.keys) := by
  refine ⟨?_, ?_, ?_, ?_⟩
  · intro order
    constructor
    · rintro ⟨now, runs⟩ writer
      exact ⟨now.pending writer, runs.callsOf_append_pending writer⟩
    · exact exists_runs (start calls)
  · intro order now runs key named
    have up : (start calls).keys.contains key = false := KeySet.contains_empty key
    rw [runs.contains named, up]
  · intro pad after call key step outside single
    rw [step.keys]
    rcases single with press | release
    · rw [press, KeySet.after_press, KeySet.single?_of_ge outside]
      rfl
    · rw [release, KeySet.after_release, KeySet.single?_of_ge outside]
      rfl
  · intro unshared order now runs done
    refine ⟨?_, ?_⟩
    · intro key named writer uses
      exact runs.lastEffect?_eq done unshared named uses
    · intro other final others finished
      exact runs.keys_eq done unshared others finished

end Orders

/-- Two writers, one of which also calls on a number that names no key. -/
def twoWriters : Bool → List KeyEvent
  | false => [.press 0x3, .press 0x42, .release 0x3]
  | true => [.press 0xE]

theorem twoWriters_unshared : Unshared twoWriters := by
  constructor
  · intro writer event member
    cases writer with
    | false =>
        simp only [twoWriters, List.mem_cons, List.not_mem_nil, or_false] at member
        rcases member with rfl | rfl | rfl
        · exact ⟨0x3, .inl rfl⟩
        · exact ⟨0x42, .inl rfl⟩
        · exact ⟨0x3, .inr rfl⟩
    | true =>
        obtain rfl := List.mem_singleton.mp member
        exact ⟨0xE, .inl rfl⟩
  · have first : ∀ key < 16, KeyEvent.Uses key (twoWriters false) → key = 0x3 := by
      intro key named uses
      simp [KeyEvent.Uses, twoWriters] at uses
      omega
    have second : ∀ key, KeyEvent.Uses key (twoWriters true) → key = 0xE := by
      simp [KeyEvent.Uses, twoWriters]
    intro key named writer other uses shared
    cases writer <;> cases other
    · rfl
    · cases (first key named uses).symm.trans (second key shared)
    · cases (second key uses).symm.trans (first key named shared)
    · rfl

/-- The second writer comes first or last; the keys are the same in the end. -/
theorem shared_keypad_exact_of_two_writers :
    ∃ early late first : SharedKeypad Bool,
      Runs (start twoWriters) [(true, .press 0xE)] first ∧ first.keys.contains 0xE = true ∧
      Runs (start twoWriters) [(true, .press 0xE), (false, .press 0x3), (false, .press 0x42),
        (false, .release 0x3)] early ∧
      Runs (start twoWriters) [(false, .press 0x3), (false, .press 0x42), (false, .release 0x3),
        (true, .press 0xE)] late ∧
      late.keys = early.keys ∧ early.keys.contains 0xE = true ∧ early.keys.contains 0x3 = false := by
  obtain ⟨orders, after, _, final⟩ := shared_keypad_exact twoWriters
  obtain ⟨first, begins⟩ := (orders [(true, .press 0xE)]).mpr (by decide)
  obtain ⟨early, runs⟩ := (orders [(true, .press 0xE), (false, .press 0x3), (false, .press 0x42),
    (false, .release 0x3)]).mpr (by decide)
  obtain ⟨late, others⟩ := (orders [(false, .press 0x3), (false, .press 0x42),
    (false, .release 0x3), (true, .press 0xE)]).mpr (by decide)
  have done : early.IsDone := by
    intro writer
    have whole := runs.callsOf_append_pending writer
    cases writer <;> simpa [callsOf, twoWriters, start] using whole
  have finished : late.IsDone := by
    intro writer
    have whole := others.callsOf_append_pending writer
    cases writer <;> simpa [callsOf, twoWriters, start] using whole
  obtain ⟨last, same⟩ := final twoWriters_unshared _ _ runs done
  have pressed := last 0xE (by decide) true (.inl (by decide))
  have released := last 0x3 (by decide) false (.inr (by decide))
  exact ⟨early, late, first, begins, after _ _ begins 0xE (by decide), runs, others,
    same _ _ others finished, (Option.some.inj pressed).symm, (Option.some.inj released).symm⟩

end SharedKeypad

end Chip8
