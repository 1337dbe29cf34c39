import Chip8.Proofs.Checked.Cycle

/-!
# Nothing is ever refused

A checked run does everything that a run does and answers the same machine, on every
display that can be counted and for as long as no program has been running for too many
cycles.  So no index, slice, remainder or sum of a run goes wrong.  What a host does to
the picture between cycles is the host's own and is not checked.
-/

set_option autoImplicit false

namespace Chip8

namespace Checked

variable {w h : Nat}

def load (program : List UInt8) (m : Machine w h) :
    Option (Machine w h × Except Fault Unit) := do
  let capacity ← sub m.config.memorySize Memory.programStart
  return (← boot m.config m.screen program, loadOutcome capacity program)

def loadStream (stream : Stream) (m : Machine w h) :
    Option (Machine w h × Except Fault Unit) := do
  let capacity ← sub m.memory.size Memory.programStart
  let limit ← add 64 capacity 1
  load (stream.readUpTo limit).bytes m

def after (m : Machine w h) : Machine.Action → Option (Machine w h)
  | .load program => return (← load program m).1
  | .loadStream stream => return (← loadStream stream m).1
  | .cycle keys => return (← cycle keys m).1
  | action => return m.after action

def run (config : Config) (actions : List Machine.Action) : Option (Machine w h) := do
  actions.foldlM after (← boot config.supported .blank [])

/-! ## The marked area stays on the display -/

theorem after_marksInside (m : Machine w h) (action : Machine.Action)
    (marks : m.screen.MarksInside) : (m.after action).screen.MarksInside := by
  refine Machine.after_keeps_screen ?_ ?_ ?_ ?_ m action marks
  · intro fb inside
    exact Framebuffer.clear_marksInside inside
  · intro fb sprite inside
    exact Framebuffer.draw_marksInside inside sprite
  · intro fb area inside
    exact Framebuffer.invalidate_marksInside inside area
  · intro fb _ area changed
    cases changed

theorem blank_marksInside : (Framebuffer.blank : Framebuffer w h).MarksInside := by
  intro area changed
  cases changed

/-! ## One action -/

theorem load_eq {m : Machine w h} (display : Countable w h) (marks : m.screen.MarksInside)
    (wellFormed : m.WellFormed) (program : List UInt8) :
    load program m = some (m.load program) := by
  have start : Memory.programStart ≤ m.config.memorySize :=
    Nat.le_trans (by decide) wellFormed.least
  simp [load, sub_eq start, boot_eq display marks wellFormed.least wellFormed.most,
    Machine.load, Memory.capacityOf]

theorem loadStream_eq {m : Machine w h} (display : Countable w h) (marks : m.screen.MarksInside)
    (wellFormed : m.WellFormed) (stream : Stream) :
    loadStream stream m = some (m.loadStream stream) := by
  have size := wellFormed.size
  have least := wellFormed.least
  have most := wellFormed.most
  simp only [Config.minMemory, Config.maxMemory] at least most
  have start : Memory.programStart ≤ m.config.memorySize := by
    simp only [Memory.programStart]
    omega
  have limit : m.config.memorySize - Memory.programStart + 1 < 2 ^ 64 := by omega
  simp [loadStream, sub_eq start, add_eq limit, load_eq display marks wellFormed,
    Machine.loadStream, Machine.reading, Memory.capacityOf, size]

theorem after_eq {m : Machine w h} (display : Countable w h) (marks : m.screen.MarksInside)
    (wellFormed : m.WellFormed) (early : m.clock < 2 ^ 63) (action : Machine.Action) :
    after m action = some (m.after action) := by
  cases action with
  | load program => simp [after, load_eq display marks wellFormed program, Machine.after]
  | loadStream stream =>
      simp [after, loadStream_eq display marks wellFormed stream, Machine.after]
  | cycle keys => simp [after, cycle_eq display marks wellFormed early keys, Machine.after]
  | invalidate area => rfl
  | validate => rfl

/-! ## Whole runs -/

/-- The clock of a machine that is fewer than 2⁴⁸ cycles into a program. -/
theorem clock_lt (config : Config) {actions : List Machine.Action}
    (young : (Machine.new config : Machine w h).cyclesSinceLoad actions < 2 ^ 48) :
    ((Machine.new config : Machine w h).afterAll actions).clock < 2 ^ 63 := by
  have bound := Machine.clock_le_cycles (Machine.new config : Machine w h) actions rfl
  have dear : Machine.dearestCycle = 24944 := by decide
  rw [dear] at bound
  omega

theorem afterAll_eq (config : Config) (display : Countable w h) :
    ∀ (later earlier : List Machine.Action),
      (∀ reached, reached <+: earlier ++ later →
        (Machine.new config : Machine w h).cyclesSinceLoad reached < 2 ^ 48) →
      later.foldlM after ((Machine.new config : Machine w h).afterAll earlier) =
        some ((Machine.new config).afterAll (earlier ++ later)) := by
  intro later
  -- The induction is on what is still to come; what has been done moves over one by one.
  induction later with
  | nil =>
      intro earlier young
      rw [List.append_nil]
      rfl
  | cons action rest ih =>
      intro earlier young
      have wellFormed := (Machine.new_wellFormed (w := w) (h := h) config).afterAll earlier
      have marks : ((Machine.new config : Machine w h).afterAll earlier).screen.MarksInside :=
        Machine.afterAll_keeps after_marksInside earlier
          (Framebuffer.clear_marksInside blank_marksInside)
      have early := clock_lt config (young earlier (List.prefix_append _ _))
      have next : earlier ++ action :: rest = (earlier ++ [action]) ++ rest := by simp
      have reached := Machine.afterAll_append (Machine.new config : Machine w h) earlier [action]
      have answered := ih (earlier ++ [action]) (next ▸ young)
      rw [List.foldlM_cons, after_eq display marks wellFormed early action, next, ← answered,
        reached]
      rfl

/-- On a display that can be counted, a run in which no program gets as old as 2⁴⁸ cycles
passes every check. -/
theorem run_eq_afterAll (config : Config) (actions : List Machine.Action) (display : Countable w h)
    (young : ∀ reached, reached <+: actions →
      (Machine.new config : Machine w h).cyclesSinceLoad reached < 2 ^ 48) :
    run config actions = some ((Machine.new config : Machine w h).afterAll actions) := by
  have bounds := Config.supportedSize_bounds config.memorySize
  have built : boot config.supported .blank [] = some (Machine.new config : Machine w h) :=
    boot_eq display blank_marksInside bounds.1 bounds.2 []
  have answered := afterAll_eq config display actions [] young
  rw [run, built]
  exact answered

/-- A jump to itself, on the usual display. -/
theorem run_eq_afterAll_of_endless_jump :
    let actions : List Machine.Action := [.load [0x12, 0x00], .cycle ∅, .cycle ∅]
    run {} actions = some ((Machine.new {} : Machine 64 32).afterAll actions) := by
  intro actions
  apply run_eq_afterAll {} actions ⟨by decide, by decide, by decide⟩
  intro reached within
  have few : actions.length < 2 ^ 48 := by decide
  have shorter := within.length_le
  have counted := (Machine.new {} : Machine 64 32).cyclesSinceLoad_le_length reached
  omega

end Checked

end Chip8
