import Chip8.Proofs.Safety

/-!
# A load starts over

A load looks at nothing of a machine but its configuration.  Whatever was done to it before,
by its programs or by its host, the machine is afterwards the one that `boot` builds, and so
two machines of one configuration run alike from then on.
-/

set_option autoImplicit false

namespace Chip8

namespace Framebuffer

variable {w h : Nat}

structure MarksVisible (fb : Framebuffer w h) : Prop where
  inside : fb.MarksInside
  pixels : ∀ area, fb.dirty = some area → area.isEmpty = false

def dark : Framebuffer w h where
  pixels := Vector.replicate (w * h) 0
  dirty := if w = 0 ∨ h = 0 then none else some ⟨0, 0, w, h⟩

theorem MarksVisible.of_dirty_eq {before after : Framebuffer w h}
    (visible : before.MarksVisible) (same : after.dirty = before.dirty) : after.MarksVisible :=
  ⟨fun area changed => visible.inside area (same ▸ changed),
    fun area changed => visible.pixels area (same ▸ changed)⟩

theorem marksVisible_of_clean {fb : Framebuffer w h} (clean : fb.dirty = none) :
    fb.MarksVisible := by
  constructor <;>
  · intro area changed
    rw [clean] at changed
    cases changed

theorem invalidate_marksVisible {fb : Framebuffer w h} (visible : fb.MarksVisible) (area : Rect) :
    (fb.invalidate area).MarksVisible := by
  refine ⟨invalidate_marksInside visible.inside area, ?_⟩
  intro after changed
  simp only [invalidate] at changed
  split at changed
  · exact visible.pixels after changed
  · rename_i some
    cases earlier : fb.dirty with
    | none =>
        simp only [earlier, Option.some.injEq] at changed
        exact changed ▸ Bool.eq_false_iff.mpr some
    | some before =>
        simp only [earlier, Option.some.injEq] at changed
        exact changed ▸ Rect.isEmpty_union (visible.pixels before earlier)

theorem clear_marksVisible {fb : Framebuffer w h} (visible : fb.MarksVisible) :
    fb.clear.MarksVisible := by
  have darkened : MarksVisible { fb with pixels := Vector.replicate (w * h) 0 } :=
    visible.of_dirty_eq rfl
  exact invalidate_marksVisible darkened fb.bounds

theorem draw_marksVisible {fb : Framebuffer w h} (visible : fb.MarksVisible) (sprite : Sprite) :
    (fb.draw sprite).MarksVisible :=
  invalidate_marksVisible (visible.of_dirty_eq (fb.dirty_flipAll _)) _

theorem dirty_of_noPixels {fb : Framebuffer w h} (visible : fb.MarksVisible)
    (none : w = 0 ∨ h = 0) : fb.dirty = .none := by
  cases changed : fb.dirty with
  | none => rfl
  | some area =>
      obtain ⟨within, under⟩ := visible.inside area changed
      have some := visible.pixels area changed
      simp only [Rect.isEmpty, Bool.or_eq_false_iff, beq_eq_false_iff_ne] at some
      simp only [Rect.right, Rect.bottom] at within under
      omega

theorem clear_eq_dark {fb : Framebuffer w h} (visible : fb.MarksVisible) : fb.clear = dark := by
  have whole : fb.bounds.clip w h = ⟨0, 0, w, h⟩ := by
    simp [bounds, Rect.clip, Rect.right, Rect.bottom]
  have bounds : ∀ pixels, (⟨pixels, fb.dirty⟩ : Framebuffer w h).bounds = fb.bounds := fun _ => rfl
  simp only [clear, invalidateAll, invalidate, bounds, whole, dark]
  by_cases none : w = 0 ∨ h = 0
  · have empty : Rect.isEmpty ⟨0, 0, w, h⟩ = true := by simpa [Rect.isEmpty] using none
    simp only [empty, none, if_true, dirty_of_noPixels visible none]
  · have some : Rect.isEmpty ⟨0, 0, w, h⟩ = false := by simpa [Rect.isEmpty] using none
    have wide : 0 < w := by omega
    have high : 0 < h := by omega
    simp only [some, none, Bool.false_eq_true, if_false]
    cases changed : fb.dirty with
    | none => rfl
    | some area => simp only [Rect.union_display (visible.inside area changed) wide high]

theorem clear_blank : (.blank : Framebuffer w h).clear = dark :=
  clear_eq_dark (marksVisible_of_clean rfl)

/-! ## A host that writes the picture itself -/

theorem dirty_overwrite (start : Nat) (bytes : List UInt8) (fb : Framebuffer w h) :
    (fb.overwrite start bytes).dirty = fb.dirty := by
  induction bytes generalizing start fb with
  | nil => rfl
  | cons byte rest ih => rw [overwrite, ih]

theorem dirty_write? {row offset : Nat} {bytes : List UInt8} {fb after : Framebuffer w h}
    (written : fb.write? row offset bytes = some after) : after.dirty = fb.dirty := by
  unfold write? at written
  split at written
  · cases written
    exact dirty_overwrite _ _ fb
  · cases written

end Framebuffer

namespace Machine

variable {w h : Nat}

/-! ## Everything that can happen to a machine -/

/-- An action, or the host writing bytes of its own over a row of the picture. -/
inductive Interaction where
  | act (action : Action)
  | write (row offset : Nat) (bytes : List UInt8)
  deriving DecidableEq

def interact (m : Machine w h) : Interaction → Machine w h
  | .act action => m.after action
  | .write row offset bytes =>
      { m with screen := (m.screen.write? row offset bytes).getD m.screen }

def through (m : Machine w h) : List Interaction → Machine w h
  | [] => m
  | interaction :: later => (m.interact interaction).through later

theorem through_keeps {P : Machine w h → Prop}
    (kept : ∀ (m : Machine w h) (interaction : Interaction), P m → P (m.interact interaction))
    (history : List Interaction) {m : Machine w h} (start : P m) : P (m.through history) := by
  induction history generalizing m with
  | nil => exact start
  | cons interaction later ih => exact ih (kept m interaction start)

/-- What has been noted down after an interaction, if `note` tells it of actions.  A host that
writes the picture itself goes unnoticed. -/
def noteOf {σ : Type} (note : Machine w h → Action → σ → σ) (m : Machine w h) (noted : σ) :
    Interaction → σ
  | .act action => note m action noted
  | .write _ _ _ => noted

def notes {σ : Type} (note : Machine w h → Action → σ → σ) (m : Machine w h) (noted : σ) :
    List Interaction → σ
  | [] => noted
  | interaction :: later =>
      notes note (m.interact interaction) (m.noteOf note noted interaction) later

theorem notes_keeps {σ : Type} {note : Machine w h → Action → σ → σ}
    {P : Machine w h → σ → Prop} (history : List Interaction)
    (kept : ∀ interaction ∈ history, ∀ (m : Machine w h) (noted : σ),
      P m noted → P (m.interact interaction) (m.noteOf note noted interaction))
    {m : Machine w h} {noted : σ} (start : P m noted) :
    P (m.through history) (m.notes note noted history) := by
  induction history generalizing m noted with
  | nil => exact start
  | cons interaction later ih =>
      obtain ⟨first, rest⟩ := List.forall_mem_cons.mp kept
      exact ih rest (first m noted start)

theorem WellFormed.interact {m : Machine w h} (wellFormed : m.WellFormed)
    (interaction : Interaction) : (m.interact interaction).WellFormed := by
  cases interaction with
  | act action => exact wellFormed.after action
  | write row offset bytes => exact { wellFormed with }

theorem WellFormed.through (history : List Interaction) {m : Machine w h}
    (wellFormed : m.WellFormed) : (m.through history).WellFormed :=
  through_keeps (fun _ interaction before => before.interact interaction) history wellFormed

/-- What a load goes by: the configuration, the size of memory, and a marked area that is
really on the display. -/
structure Loadable (config : Config) (m : Machine w h) : Prop where
  configured : m.config = config.supported
  size : m.memory.size = config.supported.memorySize
  marks : m.screen.MarksVisible

theorem new_loadable (config : Config) : (new config : Machine w h).Loadable config :=
  ⟨rfl, Memory.size_image _ _,
    Framebuffer.clear_marksVisible (Framebuffer.marksVisible_of_clean rfl)⟩

theorem after_marksVisible (m : Machine w h) (action : Action)
    (visible : m.screen.MarksVisible) : (m.after action).screen.MarksVisible := by
  refine after_keeps_screen ?_ ?_ ?_ ?_ m action visible
  · intro fb visible
    exact Framebuffer.clear_marksVisible visible
  · intro fb sprite visible
    exact Framebuffer.draw_marksVisible visible sprite
  · intro fb area visible
    exact Framebuffer.invalidate_marksVisible visible area
  · intro fb _
    exact Framebuffer.marksVisible_of_clean rfl

theorem Loadable.after {config : Config} {m : Machine w h} (loadable : m.Loadable config)
    (action : Action) : (m.after action).Loadable config := by
  have configured := (config_after m action).trans loadable.configured
  refine ⟨configured, ?_, after_marksVisible m action loadable.marks⟩
  cases action with
  | load program => exact (Memory.size_image _ _).trans (congrArg Config.memorySize configured)
  | loadStream stream =>
      exact (Memory.size_image _ _).trans (congrArg Config.memorySize configured)
  | cycle keys => exact (m.cycle_effect keys).size.trans loadable.size
  | invalidate area => exact loadable.size
  | validate => exact loadable.size

theorem Loadable.interact {config : Config} {m : Machine w h} (loadable : m.Loadable config)
    (interaction : Interaction) : (m.interact interaction).Loadable config := by
  cases interaction with
  | act action => exact loadable.after action
  | write row offset bytes =>
      refine ⟨loadable.configured, loadable.size, ?_⟩
      show Framebuffer.MarksVisible (Option.getD _ _)
      cases written : m.screen.write? row offset bytes with
      | none => exact loadable.marks
      | some after => exact loadable.marks.of_dirty_eq (Framebuffer.dirty_write? written)

theorem Loadable.through {config : Config} (history : List Interaction) {m : Machine w h}
    (loadable : m.Loadable config) : (m.through history).Loadable config :=
  through_keeps (fun _ interaction before => before.interact interaction) history loadable

/-! ## What a load leaves -/

/-- What is answered to a load, told by the length of the program. -/
structure Answers (config : Config) (program : List UInt8) (outcome : Except Fault Unit) :
    Prop where
  noProgram : program.length = 0 → outcome = .error .noProgram
  tooSmall : program.length = 1 → outcome = .error .programTooSmall
  tooLarge : Memory.capacityOf config.memorySize < program.length →
    outcome = .error .programTooLarge
  accepted : 2 ≤ program.length → program.length ≤ Memory.capacityOf config.memorySize →
    outcome = .ok ()

structure StartsOver (config : Config) (program : List UInt8) (m : Machine w h) : Prop where
  configured : m.config = config
  noProgram : program.length = 0 → m.fault = some .noProgram
  tooSmall : program.length = 1 → m.fault = some .programTooSmall
  tooLarge : Memory.capacityOf config.memorySize < program.length →
    m.fault = some .programTooLarge
  accepted : 2 ≤ program.length → program.length ≤ Memory.capacityOf config.memorySize →
    m.fault = none
  size : m.memory.size = config.memorySize
  bytes : ∀ address < config.memorySize, m.memory.byte address =
    if address < Memory.font.length then Memory.font.getD address 0
    else if m.fault = none ∧ Memory.programStart ≤ address then
      program.getD (address - Memory.programStart) 0
    else 0
  registers : ∀ x, m.register x = 0
  index : m.index = 0
  pc : m.pc = 0x200
  stack : m.stack = ⟨Vector.replicate 32 0, 32⟩
  delay : m.delay = .idle
  sound : m.sound = .idle
  wait : m.wait = none
  latch : m.latch = ∅
  keys : m.keys = ∅
  clock : m.clock = 0
  seed : m.seed = config.seed
  pixels : m.screen.pixels = Vector.replicate (w * h) 0
  dirty : m.screen.dirty = if w = 0 ∨ h = 0 then none else some ⟨0, 0, w, h⟩

theorem load_eq_boot {config : Config} {m : Machine w h} (loadable : m.Loadable config)
    (program : List UInt8) : m.load program =
      (boot config.supported .blank program,
        loadOutcome (Memory.capacityOf config.supported.memorySize) program) := by
  have dark := Framebuffer.clear_eq_dark loadable.marks
  simp only [load, boot, loadable.configured, dark, Framebuffer.clear_blank]

theorem byte_boot (config : Config) (screen : Framebuffer w h) (program : List UInt8)
    {address : Nat} (inside : address < config.memorySize) :
    (boot config screen program).memory.byte address =
      if address < Memory.font.length then Memory.font.getD address 0
      else if (boot config screen program).fault = none ∧ Memory.programStart ≤ address then
        program.getD (address - Memory.programStart) 0
      else 0 := by
  show (Memory.image _ _).byte address =
    if _ then _ else if loadRefusal? _ _ = none ∧ _ then _ else _
  rw [Memory.byte_image _ inside]
  by_cases accepted : loadRefusal? (Memory.capacityOf config.memorySize) program = none
  · simp [accepted]
  · simp [accepted]

theorem boot_startsOver (config : Config) (program : List UInt8)
    (room : 2 ≤ Memory.capacityOf config.memorySize) :
    (boot config .blank program : Machine w h).StartsOver config program := by
  constructor
  case noProgram =>
    intro length
    simp [boot, loadRefusal?, length]
  case tooSmall =>
    intro length
    simp [boot, loadRefusal?, length]
  case tooLarge =>
    intro long
    have some : program.length ≠ 0 := by omega
    have enough : ¬ program.length < 2 := by omega
    simp only [boot, loadRefusal?, some, enough, long, if_false, if_true]
  case accepted =>
    intro enough fits
    have some : program.length ≠ 0 := by omega
    simp only [boot, loadRefusal?, some, Nat.not_lt.mpr enough, Nat.not_lt.mpr fits, if_false]
  case size => exact Memory.size_image _ _
  case bytes =>
    intro address inside
    exact byte_boot config .blank program inside
  case registers =>
    intro x
    simp [boot, register]
  case pixels => exact Framebuffer.pixels_clear _
  case dirty => exact congrArg Framebuffer.dirty Framebuffer.clear_blank
  all_goals rfl

theorem StartsOver.answers {config : Config} {program : List UInt8} {m : Machine w h}
    (startsOver : (m.load program).1.StartsOver config program) :
    Answers config program (m.load program).2 where
  noProgram length := load_eq_error_iff.mpr (startsOver.noProgram length)
  tooSmall length := load_eq_error_iff.mpr (startsOver.tooSmall length)
  tooLarge long := load_eq_error_iff.mpr (startsOver.tooLarge long)
  accepted enough fits := load_eq_ok_iff.mpr (startsOver.accepted enough fits)

/-- A load forgets all that was done to a machine: it answers whether the program was refused
and records the same, it leaves a machine that starts over, and this machine goes on as one that
was treated differently but loaded the same program. -/
theorem load_forgets (config : Config) (history : List Interaction) (program : List UInt8) :
    let m : Machine w h := (new config).through history
    let loaded := m.load program
    loaded.1.fault = loadRefusal? m.capacity program ∧
      Answers config.supported program loaded.2 ∧
      (∀ fault, loaded.2 = .error fault ↔ loaded.1.fault = some fault) ∧
      loaded.1.StartsOver config.supported program ∧
      ∀ (other : Config) (otherHistory : List Interaction), other.supported = config.supported →
        let twin : Machine w h × Except Fault Unit :=
          ((new other).through otherHistory).load program
        twin.2 = loaded.2 ∧ ∀ (samples : Nat → KeySet) (count : Nat),
          twin.1.afterCycles samples count = loaded.1.afterCycles samples count ∧
            ((twin.1.afterCycles samples count).cycle (samples count)).2 =
              ((loaded.1.afterCycles samples count).cycle (samples count)).2 := by
  intro m loaded
  have loadable : m.Loadable config := (new_loadable config).through history
  have booted := load_eq_boot loadable program
  have machine : loaded.1 = boot config.supported .blank program := congrArg Prod.fst booted
  have least := (Config.supportedSize_bounds config.memorySize).1
  have room : 2 ≤ Memory.capacityOf config.supported.memorySize := Nat.le_sub_of_add_le least
  have startsOver : loaded.1.StartsOver config.supported program :=
    machine ▸ boot_startsOver config.supported program room
  refine ⟨?_, startsOver.answers, fun _ => load_eq_error_iff, startsOver, ?_⟩
  · rw [machine, capacity, loadable.size]
    rfl
  · intro other otherHistory same twin
    have reloadable : Loadable other ((new other : Machine w h).through otherHistory) :=
      (new_loadable other).through otherHistory
    have rebooted : twin = _ := load_eq_boot reloadable program
    have equal : twin = loaded := by
      rw [rebooted, same]
      exact booted.symm
    rw [equal]
    exact ⟨rfl, fun _ _ => ⟨rfl, rfl⟩⟩

/-- A machine that stopped in an empty return and whose host drew on it, against a new one
that was asked for less memory than there can be. -/
theorem load_forgets_of_used :
    let used : Machine 8 4 := (new { memorySize := 0x202 }).through
      [.act (.load [0x00, 0xEE]), .act (.cycle ⟨0x0010⟩), .act .validate, .write 1 2 [0xFF, 0x07]]
    let unused : Machine 8 4 := new { memorySize := 0 }
    Config.supported { memorySize := 0x202 } = Config.supported { memorySize := 0 } ∧
      (used.load [0x00, 0xE0]).2 = (unused.load [0x00, 0xE0]).2 ∧
      (used.load [0x00, 0xE0]).1.afterCycles (fun _ => ∅) 2 =
        (unused.load [0x00, 0xE0]).1.afterCycles (fun _ => ∅) 2 := by
  intro used unused
  have forgets := load_forgets (w := 8) (h := 4) { memorySize := 0 } [] [0x00, 0xE0]
  have same : Config.supported { memorySize := 0x202 } = Config.supported { memorySize := 0 } := by
    decide
  obtain ⟨_, _, _, _, twins⟩ := forgets
  obtain ⟨outcome, cycles⟩ := twins _ _ same
  exact ⟨same, outcome, (cycles _ 2).1⟩

end Machine

end Chip8
