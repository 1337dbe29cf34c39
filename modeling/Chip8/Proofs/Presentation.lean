import Chip8.Playback
import Chip8.Proofs.Marking
import Chip8.Proofs.Painting

/-!
# Painting what changed is enough

A player paints only the marked area at the end of a frame.  Between frames its surface
may be out of date, but never outside the marked area; so once that is painted the
surface is what painting the whole picture would have made it.
-/

set_option autoImplicit false

namespace Chip8

namespace Framebuffer

variable {w h : Nat}

/-- A surface that is out of date at most where the picture is marked. -/
structure ShownOn (palette : Palette) (fb : Framebuffer w h) (surface : Surface) : Prop where
  size : surface.size = Surface.lengthFor w h
  current : ∀ x < w, ∀ y < h, fb.marks x y = false →
    surface.color? (y * w + x) = some (palette.color (fb.pixel x y))

theorem ShownOn.mono {palette : Palette} {before after : Framebuffer w h} {surface : Surface}
    (shown : before.ShownOn palette surface) (marking : before.MarksChanges after) :
    after.ShownOn palette surface := by
  refine ⟨shown.size, ?_⟩
  intro x inside y below unmarked
  obtain ⟨earlier, same⟩ := marking x inside y below unmarked
  rw [same]
  exact shown.current x inside y below earlier

theorem ShownOn.eq_render {palette : Palette} {fb : Framebuffer w h} {surface : Surface}
    (shown : fb.ShownOn palette surface) (clean : fb.dirty = none) :
    surface = fb.render palette := by
  apply Framebuffer.eq_render shown.size
  intro x inside y below
  have unmarked : fb.marks x y = false := by simp [marks, clean]
  exact shown.current x inside y below unmarked

theorem ShownOn.paint {palette : Palette} {fb : Framebuffer w h} {surface : Surface}
    {area : Rect} (shown : fb.ShownOn palette surface) (changed : fb.dirty = some area) :
    fb.validate.ShownOn palette (fb.paint palette area surface) := by
  refine ⟨(size_paint _ _ _ _).trans shown.size, ?_⟩
  intro x inside y below _
  show _ = some (palette.color (fb.pixel x y))
  rw [color?_paint _ _ (Nat.le_of_eq shown.size.symm) inside below]
  split
  · rfl
  · rename_i outside
    have unmarked : fb.marks x y = false := by simpa [marks, changed] using outside
    exact shown.current x inside y below unmarked

end Framebuffer

namespace Machine

variable {w h : Nat}

def cyclesToSpend (keys : KeySet) (budget spent : Nat) (m : Machine w h) : Nat :=
  if _ : spent < budget ∧ m.isOk = true then
    let done := m.cycle keys
    cyclesToSpend keys budget (spent + done.2) done.1 + 1
  else
    0
  termination_by budget - spent
  decreasing_by
    rename_i running
    have paid := cost_cycle_pos keys running.2
    exact Nat.sub_lt_sub_left running.1 (Nat.lt_add_of_pos_right paid)

theorem spendFrom_eq_afterCycles (keys : KeySet) (budget spent : Nat) (m : Machine w h) :
    (m.spendFrom keys budget spent).1 =
      m.afterCycles (fun _ => keys) (m.cyclesToSpend keys budget spent) := by
  induction spent, m using spendFrom.induct keys budget with
  | case1 spent m running done ih =>
      rw [spendFrom, dif_pos running, cyclesToSpend, dif_pos running]
      exact ih.trans (m.afterCycles_succ' (fun _ => keys) _).symm
  | case2 spent m resting =>
      rw [spendFrom, dif_neg resting, cyclesToSpend, dif_neg resting]
      rfl

theorem spend_marksChanges (keys : KeySet) (budget : Nat) (m : Machine w h) :
    m.screen.MarksChanges (m.spend keys budget).1.screen := by
  have kept : ∀ (later : Machine w h) (keys : KeySet), m.screen.MarksChanges later.screen →
      m.screen.MarksChanges (later.cycle keys).1.screen := by
    intro later keys marking
    exact marking.trans (cycle_marksChanges keys later)
  rw [spend, spendFrom_eq_afterCycles]
  exact afterCycles_keeps kept _ (.refl _) _

end Machine

namespace Player

inductive Action where
  | load (program : List UInt8)
  | touch (event : KeyEvent)
  | frame

def after (player : Player) : Action → Player
  | .load program => (player.load program).1
  | .touch event => player.touch event
  | .frame => player.runFrame.1

def afterAll (player : Player) : List Action → Player
  | [] => player
  | action :: later => (player.after action).afterAll later

theorem afterAll_keeps {P : Player → Prop}
    (kept : ∀ (player : Player) (action : Action), P player → P (player.after action))
    (actions : List Action) {player : Player} (start : P player) : P (player.afterAll actions) := by
  induction actions generalizing player with
  | nil => exact start
  | cons action later ih => exact ih (kept player action start)

structure KeepsUp (palette : Palette) (player : Player) : Prop where
  colors : player.palette = palette
  shown : player.machine.screen.ShownOn palette player.surface

theorem surface_new (config : Config) (settings : PlayerSettings) :
    (Player.new config settings).surface = .filled (64 * 32) settings.palette.off := by
  rw [Player.new]

theorem size_surface_new (config : Config) (settings : PlayerSettings) :
    (Player.new config settings).surface.size = Surface.lengthFor 64 32 := by
  rw [surface_new, Surface.size_filled]
  rfl

theorem surface_load (program : List UInt8) (player : Player) :
    (player.load program).1.surface = player.surface := rfl

theorem new_keepsUp (config : Config) (settings : PlayerSettings) :
    (Player.new config settings).KeepsUp settings.palette where
  colors := rfl
  shown := by
    refine ⟨size_surface_new config settings, ?_⟩
    intro x inside y below unmarked
    have marked : (Player.new config settings).machine.screen.marks x y = true :=
      Framebuffer.marks_clear inside below
    rw [marked] at unmarked
    cases unmarked

theorem followSchedule_eq (player : Player) :
    ∃ keypad, player.followSchedule = { player with keypad } := by
  unfold followSchedule
  split
  · exact ⟨_, rfl⟩
  · exact ⟨player.keypad, rfl⟩

variable {palette : Palette} {player : Player}

theorem KeepsUp.spendBudget (keepsUp : player.KeepsUp palette) :
    player.followSchedule.spendBudget.1.KeepsUp palette := by
  obtain ⟨keypad, followed⟩ := player.followSchedule_eq
  rw [followed]
  have marking := Machine.spend_marksChanges keypad player.budget player.machine
  exact ⟨keepsUp.colors, keepsUp.shown.mono marking⟩

theorem surface_spendBudget (player : Player) :
    player.followSchedule.spendBudget.1.surface = player.surface := by
  obtain ⟨keypad, followed⟩ := player.followSchedule_eq
  rw [followed]
  rfl

/-! ## Painting at the end of a frame -/

theorem dirty_present (player : Player) : player.present.1.machine.screen.dirty = none := by
  unfold present
  cases changed : player.machine.screen.dirty with
  | none => exact changed
  | some area => rfl

theorem KeepsUp.present (keepsUp : player.KeepsUp palette) :
    player.present.1.KeepsUp palette := by
  unfold Player.present
  cases changed : player.machine.screen.dirty with
  | none => exact keepsUp
  | some area =>
      have painted := keepsUp.shown.paint changed
      rw [← keepsUp.colors] at painted
      refine ⟨keepsUp.colors, ?_⟩
      rw [← keepsUp.colors]
      exact painted

theorem color?_present (keepsUp : player.KeepsUp palette) {x y : Nat} (inside : x < 64)
    (below : y < 32)
    (spared : (player.present.2.any fun area => area.contains x y) = false) :
    player.present.1.surface.color? (y * 64 + x) = player.surface.color? (y * 64 + x) := by
  have long := Nat.le_of_eq keepsUp.shown.size.symm
  unfold Player.present at spared ⊢
  cases changed : player.machine.screen.dirty with
  | none => rfl
  | some area =>
      simp only [changed, Option.any_some, Framebuffer.contains_paintedArea long, inside, below,
        decide_true, Bool.and_true] at spared
      have painted := player.machine.screen.color?_paint player.palette long inside below area
      rw [spared] at painted
      exact painted

/-! ## Whole runs -/

theorem KeepsUp.runFrame (keepsUp : player.KeepsUp palette) :
    player.runFrame.1.KeepsUp palette := by
  have painted := keepsUp.spendBudget.present
  exact ⟨painted.colors, painted.shown⟩

theorem surface_runFrame (keepsUp : player.KeepsUp palette) :
    player.runFrame.1.surface = player.runFrame.1.machine.screen.render palette :=
  keepsUp.runFrame.shown.eq_render (dirty_present _)

theorem KeepsUp.after (keepsUp : player.KeepsUp palette) (action : Action) :
    (player.after action).KeepsUp palette := by
  cases action with
  | load program =>
      have marking := player.machine.load_marksChanges program
      exact ⟨keepsUp.colors, keepsUp.shown.mono marking⟩
  | touch event => exact ⟨keepsUp.colors, keepsUp.shown⟩
  | frame => exact keepsUp.runFrame

theorem KeepsUp.afterAll (actions : List Action) {player : Player}
    (keepsUp : player.KeepsUp palette) : (player.afterAll actions).KeepsUp palette :=
  afterAll_keeps (fun _ action keepsUp => keepsUp.after action) actions keepsUp

/-- A frame that is played leaves the surface whole, so however many are played it stays
whole if it was at the start. -/
theorem surface_playFrom : ∀ (count toneFrames : Nat) {player : Player},
    player.KeepsUp palette →
    player.surface = player.machine.screen.render palette →
    (player.playFrom toneFrames count).1.surface =
      (player.playFrom toneFrames count).1.machine.screen.render palette := by
  intro count
  induction count with
  | zero =>
      intro toneFrames player _ whole
      exact whole
  | succ count ih =>
      -- A frame repairs the surface, so here it no longer matters that it was whole.
      intro toneFrames player keepsUp _
      have rendered := surface_runFrame keepsUp
      unfold playFrom
      dsimp only
      split
      · exact rendered
      · exact ih _ keepsUp.runFrame rendered

/-- Before the first frame the surface is dark, and so is the picture of a program that
has just been loaded. -/
theorem surface_new_load (config : Config) (settings : PlayerSettings) (program : List UInt8) :
    let player := ((Player.new config settings).load program).1
    player.surface = player.machine.screen.render settings.palette := by
  intro player
  have untouched : player.surface = (Player.new config settings).surface := surface_load _ _
  rw [untouched]
  apply Framebuffer.eq_render (size_surface_new config settings)
  intro x inside y below
  have place := Framebuffer.place_lt inside below
  have dark : player.machine.screen.pixel x y = 0 := by
    show Framebuffer.pixel (Framebuffer.clear _) x y = 0
    simp [Framebuffer.pixel, place]
  have off : settings.palette.color 0 = settings.palette.off := rfl
  rw [dark, off, surface_new]
  exact Surface.color?_filled settings.palette.off place

theorem surface_play {program : List UInt8} {config : Config} {settings : PlayerSettings}
    {last : Player} (played : play program config settings = .ok last) :
    last.surface = last.machine.screen.render settings.palette := by
  obtain ⟨-, rfl⟩ := play_eq_ok_iff.mp played
  exact surface_playFrom _ _ ((new_keepsUp config settings).after (.load program))
    (surface_new_load config settings program)

/-- Whatever is done with a player, its surface is right wherever nothing is marked; a
frame makes all of it right and touches only the area that it reports; and after a whole
run, of no frames or of many, all of it is right. -/
theorem surface_eq_render (config : Config) (settings : PlayerSettings) (actions : List Action) :
    let player := (Player.new config settings).afterAll actions
    let frame := player.runFrame
    (∀ x < 64, ∀ y < 32, player.machine.screen.marks x y = false →
      player.surface.color? (y * 64 + x) =
        some (settings.palette.color (player.machine.screen.pixel x y))) ∧
      frame.1.surface = frame.1.machine.screen.render settings.palette ∧
      (∀ x < 64, ∀ y < 32, (frame.2.presented.any fun area => area.contains x y) = false →
        frame.1.surface.color? (y * 64 + x) = player.surface.color? (y * 64 + x)) ∧
      ∀ program, match play program config settings with
        | .ok last => last.surface = last.machine.screen.render settings.palette
        | .error failure =>
            ((Player.new config settings).load program).1.machine.fault = some failure.fault := by
  intro player frame
  have keepsUp : player.KeepsUp settings.palette :=
    (new_keepsUp config settings).afterAll actions
  refine ⟨keepsUp.shown.current, surface_runFrame keepsUp, ?_, ?_⟩
  · intro x inside y below spared
    rw [← surface_spendBudget player]
    exact color?_present keepsUp.spendBudget inside below spared
  · intro program
    cases played : play program config settings with
    | ok last => exact surface_play played
    | error failure =>
        exact Machine.load_eq_error_iff.mp (play_eq_error_iff.mp played).2

end Player

end Chip8
