import Chip8.Proofs.Drawing
import Chip8.Proofs.Painting

/-!
# Sprites over sprites

Drawing a sprite a second time takes it off again, whatever was there before, and of several
sprites it makes no difference which is drawn first: not to the pixels, because inverting is its
own inverse and knows no order, and not to the area to be shown, because that takes in the area
of each sprite wherever it comes.  Only the flag tells the order.
-/

set_option autoImplicit false

namespace Chip8

namespace Framebuffer

variable {w h : Nat}

theorem pixels_draw_draw (fb : Framebuffer w h) (sprite : Sprite) :
    ((fb.draw sprite).draw sprite).pixels = fb.pixels := by
  apply pixels_ext
  intro x inside y below
  rw [pixel_draw _ _ inside below, pixel_draw _ _ inside below]
  split
  · rw [UInt8.xor_assoc, UInt8.xor_self, UInt8.xor_zero]
  · rfl

theorem pixels_draw_comm (fb : Framebuffer w h) (a b : Sprite) :
    ((fb.draw a).draw b).pixels = ((fb.draw b).draw a).pixels := by
  apply pixels_ext
  intro x inside y below
  simp only [pixel_draw _ _ inside below]
  cases a.covers x y <;> cases b.covers x y <;> rfl

theorem dirty_draw_comm (fb : Framebuffer w h) (a b : Sprite) :
    ((fb.draw a).draw b).dirty = ((fb.draw b).draw a).dirty := by
  have marked : ∀ first second : Sprite, ((fb.draw first).draw second).dirty =
      ((fb.invalidate (first.area w h)).invalidate (second.area w h)).dirty := by
    intro first second
    rw [dirty_draw, dirty_invalidate, dirty_draw, ← dirty_invalidate]
  rw [marked, marked, dirty_invalidate_comm]

theorem draw_comm (fb : Framebuffer w h) (a b : Sprite) :
    (fb.draw a).draw b = (fb.draw b).draw a := by
  have pixels := fb.pixels_draw_comm a b
  have dirty := fb.dirty_draw_comm a b
  cases first : (fb.draw a).draw b
  cases second : (fb.draw b).draw a
  rw [first, second] at pixels dirty
  cases pixels
  cases dirty
  rfl

def drawAll (sprites : List Sprite) (fb : Framebuffer w h) : Framebuffer w h :=
  sprites.foldl (fun fb sprite => fb.draw sprite) fb

theorem drawAll_perm {sprites others : List Sprite} (same : sprites.Perm others)
    (fb : Framebuffer w h) : fb.drawAll sprites = fb.drawAll others :=
  same.foldl_eq' (fun a _ b _ fb => fb.draw_comm a b) fb

/-- A sprite collides with what is left of itself just if it was drawn over dark pixels. -/
theorem collides_draw_iff {fb : Framebuffer w h} (plain : fb.TwoValued) (sprite : Sprite) :
    (fb.draw sprite).collides sprite = true ↔
      ∃ x < w, ∃ y < h, sprite.covers x y = true ∧ fb.pixel x y = 0 := by
  have darkened : ∀ x < w, ∀ y < h, sprite.covers x y = true →
      ((fb.draw sprite).pixel x y ≠ 0 ↔ fb.pixel x y = 0) := by
    intro x inside y below covered
    have toggled := lit_pixel_draw plain sprite inside below
    rw [covered, Bool.true_xor] at toggled
    grind
  rw [collides_iff (draw_twoValued plain sprite)]
  constructor
  · rintro ⟨x, inside, y, below, covered, lit⟩
    exact ⟨x, inside, y, below, covered, (darkened x inside y below covered).mp lit⟩
  · rintro ⟨x, inside, y, below, covered, dark⟩
    exact ⟨x, inside, y, below, covered, (darkened x inside y below covered).mpr dark⟩

end Framebuffer

namespace Machine

variable {w h : Nat}

def draws? (m : Machine w h) : Option Sprite :=
  match m.executes? with
  | some (.draw x y rows) => some (m.sprite x y rows)
  | _ => none

/-- A machine after a cycle for which it finds the given picture. -/
def turn (m : Machine w h) (keys : KeySet) (fb : Framebuffer w h) : Machine w h :=
  ({ m with screen := fb }.cycle keys).1

/-- The picture once machines have taken cycles in turn, each on the picture that the one
before it left.  They may be what becomes of one machine in between, or different ones. -/
def inTurn (fb : Framebuffer w h) : List (Machine w h × KeySet) → Framebuffer w h
  | [] => fb
  | (m, keys) :: later => inTurn (m.turn keys fb).screen later

theorem draws?_eq_some {m : Machine w h} {sprite : Sprite} (draws : m.draws? = some sprite) :
    ∃ x y rows, m.executes? = some (.draw x y rows) ∧ m.sprite x y rows = sprite := by
  unfold draws? at draws
  split at draws
  · rename_i x y rows executed
    exact ⟨x, y, rows, executed, Option.some.inj draws⟩
  · cases draws

theorem screen_turn {m : Machine w h} {sprite : Sprite} (draws : m.draws? = some sprite)
    (keys : KeySet) (fb : Framebuffer w h) : (m.turn keys fb).screen = fb.draw sprite := by
  obtain ⟨x, y, rows, executed, rfl⟩ := draws?_eq_some draws
  have same : { m with screen := fb }.executes? = some (.draw x y rows) := executed
  exact screen_cycle_of_draw keys same

theorem flag_turn_iff {m : Machine w h} {sprite : Sprite} (draws : m.draws? = some sprite)
    (keys : KeySet) (fb : Framebuffer w h) :
    (m.turn keys fb).flag = 1 ↔ fb.collides sprite = true := by
  obtain ⟨x, y, rows, executed, rfl⟩ := draws?_eq_some draws
  have same : { m with screen := fb }.executes? = some (.draw x y rows) := executed
  exact flag_cycle_of_draw_iff keys same

/-- Machines that draw in turn draw their sprites one over the other. -/
theorem inTurn_eq_drawAll (turns : List (Machine w h × KeySet))
    (drawing : ∀ turn ∈ turns, turn.1.draws?.isSome) (fb : Framebuffer w h) :
    inTurn fb turns = fb.drawAll (turns.filterMap fun turn => turn.1.draws?) := by
  induction turns generalizing fb with
  | nil => rfl
  | cons turn later ih =>
      obtain ⟨m, keys⟩ := turn
      obtain ⟨sprite, draws⟩ := Option.isSome_iff_exists.mp (drawing (m, keys) List.mem_cons_self)
      have rest : ∀ turn ∈ later, turn.1.draws?.isSome := by
        intro turn there
        exact drawing turn (List.mem_cons_of_mem _ there)
      rw [inTurn, screen_turn draws keys fb, ih rest, List.filterMap_cons, draws]
      rfl

/-- On a picture without shades, drawing a sprite again takes it off; the first flag tells a lit
pixel under the sprite and the second a dark one, so that one of them is up just if the sprite
shows at all.  And machines that draw leave the same picture in whatever order they do it, with
the same area to be shown. -/
theorem draws_cancel_and_commute {fb : Framebuffer w h} (plain : fb.TwoValued) :
    (∀ (sprite : Sprite) (first second : Machine w h) (keys later : KeySet),
      first.draws? = some sprite → second.draws? = some sprite →
        let once := first.turn keys fb
        let twice := second.turn later once.screen
        twice.screen.pixels = fb.pixels ∧
          (once.flag = 1 ↔ ∃ x < w, ∃ y < h, sprite.covers x y = true ∧ fb.pixel x y ≠ 0) ∧
          (twice.flag = 1 ↔ ∃ x < w, ∃ y < h, sprite.covers x y = true ∧ fb.pixel x y = 0) ∧
          (once.flag = 1 ∨ twice.flag = 1 ↔ ∃ x < w, ∃ y < h, sprite.covers x y = true)) ∧
      ∀ turns others : List (Machine w h × KeySet), (∀ turn ∈ turns, turn.1.draws?.isSome) →
        turns.Perm others → inTurn fb turns = inTurn fb others := by
  refine ⟨?_, ?_⟩
  · intro sprite first second keys later firstDraws secondDraws once twice
    have drawn : once.screen = fb.draw sprite := screen_turn firstDraws keys fb
    have redrawn : twice.screen = (fb.draw sprite).draw sprite := by
      rw [← drawn]
      exact screen_turn secondDraws later once.screen
    have overLit : once.flag = 1 ↔
        ∃ x < w, ∃ y < h, sprite.covers x y = true ∧ fb.pixel x y ≠ 0 := by
      rw [flag_turn_iff firstDraws, Framebuffer.collides_iff plain]
    have overDark : twice.flag = 1 ↔
        ∃ x < w, ∃ y < h, sprite.covers x y = true ∧ fb.pixel x y = 0 := by
      rw [flag_turn_iff secondDraws, drawn, Framebuffer.collides_draw_iff plain]
    refine ⟨?_, overLit, overDark, ?_⟩
    · rw [redrawn, fb.pixels_draw_draw]
    · rw [overLit, overDark]
      constructor
      · rintro (⟨x, inside, y, below, covered, _⟩ | ⟨x, inside, y, below, covered, _⟩) <;>
          exact ⟨x, inside, y, below, covered⟩
      · rintro ⟨x, inside, y, below, covered⟩
        by_cases dark : fb.pixel x y = 0
        · exact .inr ⟨x, inside, y, below, covered, dark⟩
        · exact .inl ⟨x, inside, y, below, covered, dark⟩
  · intro turns others drawing same
    have otherDrawing : ∀ turn ∈ others, turn.1.draws?.isSome := by
      intro turn there
      exact drawing turn (same.mem_iff.mpr there)
    rw [inTurn_eq_drawAll turns drawing, inTurn_eq_drawAll others otherDrawing]
    exact Framebuffer.drawAll_perm (same.filterMap _) fb

/-- A digit on a dark display is drawn twice, and in turn with a tall sprite that overlaps it. -/
theorem draws_cancel_and_commute_of_digit :
    let dark : Machine 8 4 := new { memorySize := 0x206 }
    let digit := dark.after (.load [0xD0, 0x05, 0x12, 0x00])
    let tall := dark.afterAll [.load [0x60, 0x02, 0xD0, 0x0F, 0x12, 0x00], .cycle ∅]
    let once := digit.turn ∅ dark.screen
    let twice := digit.turn ∅ once.screen
    digit.draws?.isSome ∧ tall.draws?.isSome ∧
      once.screen.pixels ≠ dark.screen.pixels ∧ twice.screen.pixels = dark.screen.pixels ∧
      once.flag = 0 ∧ twice.flag = 1 ∧
      inTurn dark.screen [(digit, ∅), (tall, ∅)] = inTurn dark.screen [(tall, ∅), (digit, ∅)] := by
  intro dark digit tall once twice
  have ready : digit.draws?.isSome ∧ tall.draws?.isSome ∧
      once.screen.pixels ≠ dark.screen.pixels ∧ once.flag = 0 ∧ twice.flag = 1 := by
    decide +kernel
  have plain : dark.screen.TwoValued := new_twoValued _
  -- From here on nothing is to run the machines.
  subst once twice
  clear_value digit tall dark
  obtain ⟨drawsDigit, drawsTall, changed, missed, hit⟩ := ready
  obtain ⟨cancel, commute⟩ := draws_cancel_and_commute plain
  obtain ⟨sprite, draws⟩ := Option.isSome_iff_exists.mp drawsDigit
  refine ⟨drawsDigit, drawsTall, changed, (cancel sprite digit digit ∅ ∅ draws draws).1, missed,
    hit, ?_⟩
  apply commute
  · intro turn listed
    rcases List.mem_cons.mp listed with rfl | listed
    · exact drawsDigit
    · rw [List.mem_singleton.mp listed]
      exact drawsTall
  · exact .swap _ _ _

end Machine

end Chip8
