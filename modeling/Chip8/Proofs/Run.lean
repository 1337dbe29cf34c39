import Chip8.Proofs.Outcome
import Chip8.Stream

/-!
# Runs

Everything that can be done to a machine from outside is an action: a load, a cycle
under some keys, or a host marking or showing the picture.  A run is a list of
actions, and the reachable machines are those that a run leads to from a new one.
A history is noted down along a run beside the machine, which it never influences;
how many cycles old a program is, for instance.
-/

set_option autoImplicit false

namespace Chip8.Machine

variable {w h : Nat}

inductive Action where
  | load (program : List UInt8)
  | loadStream (stream : Stream)
  | cycle (keys : KeySet)
  | invalidate (area : Rect)
  | validate
  deriving DecidableEq

def after (m : Machine w h) : Action → Machine w h
  | .load program => (m.load program).1
  | .loadStream stream => (m.loadStream stream).1
  | .cycle keys => (m.cycle keys).1
  | .invalidate area => { m with screen := m.screen.invalidate area }
  | .validate => { m with screen := m.screen.validate }

def afterAll (m : Machine w h) : List Action → Machine w h
  | [] => m
  | action :: later => (m.after action).afterAll later

/-- What has been noted down after a run, if `note` tells what an action on a machine
makes of what was noted before it. -/
def history {σ : Type} (note : Machine w h → Action → σ → σ) (m : Machine w h) (noted : σ) :
    List Action → σ
  | [] => noted
  | action :: later => history note (m.after action) (note m action noted) later

theorem afterAll_append (m : Machine w h) (earlier later : List Action) :
    m.afterAll (earlier ++ later) = (m.afterAll earlier).afterAll later := by
  induction earlier generalizing m with
  | nil => rfl
  | cons action rest ih => exact ih (m.after action)

theorem afterAll_keeps {P : Machine w h → Prop}
    (kept : ∀ (m : Machine w h) (action : Action), P m → P (m.after action))
    (actions : List Action) {m : Machine w h} (start : P m) : P (m.afterAll actions) := by
  induction actions generalizing m with
  | nil => exact start
  | cons action later ih => exact ih (kept m action start)

theorem history_keeps {σ : Type} {note : Machine w h → Action → σ → σ}
    {P : Machine w h → σ → Prop}
    (kept : ∀ (m : Machine w h) (action : Action) (noted : σ),
      P m noted → P (m.after action) (note m action noted))
    (actions : List Action) {m : Machine w h} {noted : σ} (start : P m noted) :
    P (m.afterAll actions) (history note m noted actions) := by
  induction actions generalizing m noted with
  | nil => exact start
  | cons action later ih => exact ih (kept m action noted start)

/-- What every change of the picture keeps, any action keeps. -/
theorem after_keeps_screen {P : Framebuffer w h → Prop}
    (cleared : ∀ fb : Framebuffer w h, P fb → P fb.clear)
    (drawn : ∀ (fb : Framebuffer w h) (sprite : Sprite), P fb → P (fb.draw sprite))
    (marked : ∀ (fb : Framebuffer w h) (area : Rect), P fb → P (fb.invalidate area))
    (shown : ∀ fb : Framebuffer w h, P fb → P fb.validate)
    (m : Machine w h) (action : Action) (start : P m.screen) : P (m.after action).screen := by
  cases action with
  | load program => exact cleared m.screen start
  | loadStream stream => exact cleared m.screen start
  | cycle keys =>
      show P (m.cycle keys).1.screen
      rw [(m.cycle_effect keys).screen]
      cases executed : m.executes? with
      | none => exact start
      | some instruction =>
          cases instruction with
          | clearScreen => exact cleared m.screen start
          | draw x y rows =>
              simp only [Option.elim_some, screenAfter]
              split
              · exact start
              · exact drawn m.screen _ start
          | _ => exact start
  | invalidate area => exact marked m.screen area start
  | validate => exact shown m.screen start

/-! ## Cycle after cycle -/

/-- The machine when `count` cycles are over, each under its own of an endless sequence of
key sets. -/
def afterCycles (samples : Nat → KeySet) (m : Machine w h) : Nat → Machine w h
  | 0 => m
  | count + 1 => ((m.afterCycles samples count).cycle (samples count)).1

theorem afterCycles_succ (samples : Nat → KeySet) (m : Machine w h) (count : Nat) :
    m.afterCycles samples (count + 1) =
      ((m.afterCycles samples count).cycle (samples count)).1 := rfl

theorem afterCycles_add (samples : Nat → KeySet) (m : Machine w h) (first second : Nat) :
    m.afterCycles samples (first + second) =
      (m.afterCycles samples first).afterCycles (fun i => samples (first + i)) second := by
  induction second with
  | zero => rfl
  | succ second ih => rw [← Nat.add_assoc, afterCycles_succ, ih, afterCycles_succ]

theorem afterCycles_succ' (samples : Nat → KeySet) (m : Machine w h) (count : Nat) :
    m.afterCycles samples (count + 1) =
      (m.cycle (samples 0)).1.afterCycles (fun i => samples (1 + i)) count := by
  rw [Nat.add_comm, afterCycles_add]
  rfl

theorem afterCycles_keeps {P : Machine w h → Prop}
    (kept : ∀ (m : Machine w h) (keys : KeySet), P m → P (m.cycle keys).1)
    (samples : Nat → KeySet) {m : Machine w h} (start : P m) (count : Nat) :
    P (m.afterCycles samples count) := by
  induction count with
  | zero => exact start
  | succ count ih => exact kept _ _ ih

theorem afterCycles_of_stopped (samples : Nat → KeySet) {m : Machine w h}
    (stopped : m.isOk = false) (count : Nat) : m.afterCycles samples count = m := by
  induction count with
  | zero => rfl
  | succ count ih => rw [afterCycles_succ, ih, cycle_of_stopped _ stopped]

theorem clock_le_afterCycles (samples : Nat → KeySet) (m : Machine w h) (count : Nat) :
    m.clock ≤ (m.afterCycles samples count).clock := by
  induction count with
  | zero => exact Nat.le_refl _
  | succ count ih =>
      rw [afterCycles_succ, (cycle_effect _ _).clock]
      exact Nat.le_add_right_of_le ih

/-- The clock stands still only in a machine that has stopped. -/
theorem isOk_of_clock_eq {samples : Nat → KeySet} {m : Machine w h} {count : Nat}
    (still : (m.afterCycles samples (count + 1)).clock = m.clock) : m.isOk = false := by
  rw [Nat.add_comm, afterCycles_add] at still
  have grown := clock_le_afterCycles (fun i => samples (1 + i)) (m.afterCycles samples 1) count
  rw [still, show m.afterCycles samples 1 = (m.cycle (samples 0)).1 from rfl,
    (m.cycle_effect (samples 0)).clock] at grown
  apply Bool.eq_false_iff.mpr
  intro ok
  have paid := cost_cycle_pos (samples 0) ok
  omega

/-- Equal readings of the clock are equal places in a run. -/
theorem afterCycles_eq_of_clock_eq {samples : Nat → KeySet} {m : Machine w h}
    {first second : Nat} (inOrder : first ≤ second)
    (same : (m.afterCycles samples second).clock = (m.afterCycles samples first).clock) :
    m.afterCycles samples second = m.afterCycles samples first := by
  obtain ⟨rest, rfl⟩ := Nat.exists_eq_add_of_le inOrder
  rw [afterCycles_add] at same ⊢
  cases rest with
  | zero => rfl
  | succ rest => exact afterCycles_of_stopped _ (isOk_of_clock_eq same) _

/-! ## The age of a program -/

def countCycle (m : Machine w h) (action : Action) (count : Nat) : Nat :=
  match action with
  | .load _ | .loadStream _ => 0
  | .cycle _ => if m.isOk then count + 1 else count
  | .invalidate _ | .validate => count

def cyclesSinceLoad (m : Machine w h) (actions : List Action) : Nat :=
  m.history countCycle 0 actions

theorem countCycle_le (m : Machine w h) (action : Action) (count : Nat) :
    m.countCycle action count ≤ count + 1 := by
  cases action with
  | cycle keys =>
      simp only [countCycle]
      split
      · exact Nat.le_refl _
      · exact Nat.le_succ _
  | invalidate area => exact Nat.le_succ _
  | validate => exact Nat.le_succ _
  | _ => exact Nat.zero_le _

theorem cyclesSinceLoad_le_length (m : Machine w h) (actions : List Action) :
    m.cyclesSinceLoad actions ≤ actions.length := by
  have counted : ∀ (actions : List Action) (m : Machine w h) (count : Nat),
      m.history countCycle count actions ≤ count + actions.length := by
    intro actions
    induction actions with
    | nil =>
        intro m count
        exact Nat.le_refl _
    | cons action later ih =>
        intro m count
        have grown := m.countCycle_le action count
        have rest := ih (m.after action) (m.countCycle action count)
        rw [history, List.length_cons]
        omega
  have total := counted actions m 0
  rw [Nat.zero_add] at total
  exact total

theorem clock_le_cycles (m : Machine w h) (actions : List Action) (fresh : m.clock = 0) :
    (m.afterAll actions).clock ≤ m.cyclesSinceLoad actions * dearestCycle := by
  refine history_keeps (P := fun m count => m.clock ≤ count * dearestCycle) ?_ actions ?_
  · intro m action count bound
    cases action with
    | load program => exact Nat.zero_le _
    | loadStream stream => exact Nat.zero_le _
    | cycle keys =>
        have dear := cost_cycle_le keys m
        simp only [after, countCycle]
        split
        · rw [(m.cycle_effect keys).clock, Nat.add_mul, Nat.one_mul]
          omega
        · rename_i stopped
          rw [cycle_of_stopped keys (Bool.eq_false_iff.mpr stopped)]
          exact bound
    | invalidate area => exact bound
    | validate => exact bound
  · omega

end Chip8.Machine
