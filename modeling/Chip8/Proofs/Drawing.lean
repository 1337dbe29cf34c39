import Chip8.Proofs.Marking

/-!
# Drawing, pixel by pixel

A picture that only programs have changed has no shades: every pixel is dark or fully lit.
On such a picture drawing a sprite is settled by the bits of memory that fall on the display.
They say which pixels change, whether the sprite hit something, how many pixels are lit
afterwards and what is left to be shown.
-/

set_option autoImplicit false

namespace Chip8

/-- Where exactly one of two tests passes, counted by way of where each of them passes. -/
theorem countP_xor {α : Type} (p q : α → Bool) (l : List α) :
    l.countP (fun a => p a ^^ q a) + 2 * l.countP (fun a => p a && q a) =
      l.countP p + l.countP q := by
  induction l with
  | nil => rfl
  | cons a rest ih =>
      simp only [List.countP_cons]
      cases p a <;> cases q a <;> simp <;> omega

/-- The places of the pixels of a display, row by row, are all there are. -/
theorem Rect.map_place_points (w h : Nat) :
    (points ⟨0, 0, w, h⟩).map (fun point => point.2 * w + point.1) = List.range (w * h) := by
  simp only [points, Nat.zero_add]
  induction h with
  | zero => rfl
  | succ h ih =>
      rw [List.range_succ, List.flatMap_append, List.map_append, ih, Nat.mul_succ, List.range_add]
      simp [Function.comp_def, Nat.mul_comm h w]

theorem Sprite.clip_area {sprite : Sprite} {w h : Nat} (inside : sprite.left ≤ w)
    (below : sprite.top ≤ h) : (sprite.area w h).clip w h = sprite.area w h := by
  simp only [area, Rect.clip, Rect.right, Rect.bottom, Rect.mk.injEq]
  omega

theorem Sprite.cells_of_nothing {sprite : Sprite} {w h : Nat}
    (nothing : sprite.rows = [] ∨ w = 0 ∨ h = 0) : sprite.cells w h = [] := by
  rw [List.eq_nil_iff_forall_not_mem]
  rintro ⟨x, y⟩ listed
  obtain ⟨covered, inside, below⟩ := mem_cells.mp listed
  obtain ⟨_, _, row, here, _⟩ := covers_iff.mp covered
  rcases nothing with none | narrow | low
  · simp [none] at here
  · omega
  · omega

namespace Framebuffer

variable {w h : Nat}

/-! ## Pictures without shades -/

def TwoValued (fb : Framebuffer w h) : Prop :=
  ∀ x < w, ∀ y < h, fb.pixel x y = 0 ∨ fb.pixel x y = 0xFF

theorem pixel_clear (fb : Framebuffer w h) (x y : Nat) : fb.clear.pixel x y = 0 := by
  rw [pixel, pixels_clear, Vector.getElem?_replicate]
  split <;> rfl

theorem clear_twoValued (fb : Framebuffer w h) : fb.clear.TwoValued := by
  intro x inside y below
  exact .inl (fb.pixel_clear x y)

theorem invalidate_twoValued {fb : Framebuffer w h} (plain : fb.TwoValued) (area : Rect) :
    (fb.invalidate area).TwoValued := by
  intro x inside y below
  rw [pixel, pixels_invalidate]
  exact plain x inside y below

theorem draw_twoValued {fb : Framebuffer w h} (plain : fb.TwoValued) (sprite : Sprite) :
    (fb.draw sprite).TwoValued := by
  intro x inside y below
  rw [pixel_draw sprite fb inside below]
  split
  · rcases plain x inside y below with dark | lit
    · rw [dark]
      exact .inr rfl
    · rw [lit]
      exact .inl rfl
  · exact plain x inside y below

/-! ## A sprite on such a picture -/

theorem mem_points_bounds {fb : Framebuffer w h} {x y : Nat} :
    (x, y) ∈ fb.bounds.points ↔ x < w ∧ y < h := by
  simp [Rect.mem_points, Rect.contains_iff, bounds, Rect.right, Rect.bottom]

theorem lit_eq_countP (fb : Framebuffer w h) :
    fb.lit = fb.bounds.points.countP fun point => fb.pixel point.1 point.2 != 0 := by
  have listed : fb.pixels.toList =
      (List.range (w * h)).map fun place => fb.pixels[place]?.getD 0 := by
    apply List.ext_getElem
    · simp
    · intro place inside _
      simp at inside ⊢
      simp [inside]
  rw [lit, ← Vector.countP_toList, listed, ← Rect.map_place_points, List.map_map, List.countP_map]
  rfl

theorem lit_pixel_draw {fb : Framebuffer w h} (plain : fb.TwoValued) (sprite : Sprite) {x y : Nat}
    (inside : x < w) (below : y < h) :
    ((fb.draw sprite).pixel x y != 0) = (sprite.covers x y ^^ (fb.pixel x y != 0)) := by
  rw [pixel_draw sprite fb inside below]
  cases sprite.covers x y with
  | false => simp
  | true => rcases plain x inside y below with dark | lit <;> simp [*]

/-- The covered pixels are counted in, and those that were lit before are counted out twice. -/
theorem lit_draw {fb : Framebuffer w h} (plain : fb.TwoValued) (sprite : Sprite) :
    (fb.draw sprite).lit + 2 * fb.bounds.points.countP (fun point =>
        sprite.covers point.1 point.2 && fb.pixel point.1 point.2 != 0) =
      fb.lit + fb.bounds.points.countP fun point => sprite.covers point.1 point.2 := by
  have toggled : (fb.draw sprite).lit = fb.bounds.points.countP fun point =>
      sprite.covers point.1 point.2 ^^ (fb.pixel point.1 point.2 != 0) := by
    rw [lit_eq_countP]
    apply List.countP_congr
    intro (x, y) listed
    obtain ⟨inside, below⟩ := mem_points_bounds.mp listed
    rw [lit_pixel_draw plain sprite inside below]
  rw [toggled, countP_xor, lit_eq_countP fb, Nat.add_comm]

/-- A sprite collides just if it covers a lit pixel. -/
theorem collides_iff {fb : Framebuffer w h} (plain : fb.TwoValued) (sprite : Sprite) :
    fb.collides sprite = true ↔
      ∃ x < w, ∃ y < h, sprite.covers x y = true ∧ fb.pixel x y ≠ 0 := by
  simp only [collides, List.any_eq_true, Prod.exists, Sprite.mem_cells, beq_iff_eq]
  constructor
  · rintro ⟨x, y, ⟨covered, inside, below⟩, lit⟩
    exact ⟨x, inside, y, below, covered, by simp [lit]⟩
  · rintro ⟨x, inside, y, below, covered, lit⟩
    exact ⟨x, y, ⟨covered, inside, below⟩, (plain x inside y below).resolve_left lit⟩

theorem dirty_draw (fb : Framebuffer w h) (sprite : Sprite) :
    (fb.draw sprite).dirty = (fb.invalidate (sprite.area w h)).dirty := by
  rw [draw, dirty_invalidate, dirty_flipAll, dirty_invalidate]

/-- A sprite without rows is not drawn, and none is drawn on a display without pixels. -/
theorem draw_of_nothing {fb : Framebuffer w h} {sprite : Sprite}
    (nothing : sprite.rows = [] ∨ w = 0 ∨ h = 0) : fb.draw sprite = fb := by
  have empty : ((sprite.area w h).clip w h).isEmpty = true := by
    have none : sprite.rows.length = 0 ∨ w = 0 ∨ h = 0 := by
      simpa using nothing
    simp only [Rect.isEmpty, Rect.clip, Rect.right, Rect.bottom, Sprite.area, Bool.or_eq_true,
      beq_iff_eq]
    omega
  rw [draw, Sprite.cells_of_nothing nothing]
  exact if_pos empty

theorem collides_of_nothing {fb : Framebuffer w h} {sprite : Sprite}
    (nothing : sprite.rows = [] ∨ w = 0 ∨ h = 0) : fb.collides sprite = false := by
  rw [collides, Sprite.cells_of_nothing nothing]
  rfl

end Framebuffer

namespace Instruction

def drawWord (x y rows : Fin 16) : UInt16 :=
  UInt16.ofNat (0xD000 + 0x100 * x + 0x10 * y + rows)

theorem decode?_drawWord (x y rows : Fin 16) :
    decode? (drawWord x y rows) = some (.draw x y rows) := by
  have value : (drawWord x y rows).toNat = 0xD000 + 0x100 * x + 0x10 * y + rows := by
    apply UInt16.toNat_ofNat_of_lt'
    simp only [UInt16.size]
    omega
  have leading : family (drawWord x y rows) = 0xD := by
    rw [family, value]
    omega
  have fields : fieldX (drawWord x y rows) = x ∧ fieldY (drawWord x y rows) = y ∧
      fieldN (drawWord x y rows) = rows := by
    simp only [Fin.ext_iff, fieldX, fieldY, fieldN, value, Fin.val_ofNat]
    omega
  obtain ⟨first, second, last⟩ := fields
  simp only [decode?, leading, first, second, last]

end Instruction

namespace Machine

variable {w h : Nat}

theorem new_twoValued (config : Config) : (new config : Machine w h).screen.TwoValued :=
  Framebuffer.clear_twoValued _

theorem afterAll_twoValued (actions : List Action) {m : Machine w h}
    (plain : m.screen.TwoValued) : (m.afterAll actions).screen.TwoValued := by
  refine afterAll_keeps (P := fun m => m.screen.TwoValued) ?_ actions plain
  intro m action plain
  refine after_keeps_screen ?_ ?_ ?_ ?_ m action plain
  · intro fb _
    exact fb.clear_twoValued
  · intro fb sprite plain
    exact Framebuffer.draw_twoValued plain sprite
  · intro fb area plain
    exact Framebuffer.invalidate_twoValued plain area
  · intro fb plain
    exact plain

/-- Whether drawing rows of a sprite at the place in two registers inverts a pixel: it lies in
the sprite's frame, whose corner wraps around and whose right and lower parts are cut off, and
the bit of memory that falls on it is set. -/
def Flips (m : Machine w h) (x y rows : Fin 16) (px py : Nat) : Prop :=
  let left := (m.register x).toNat % w
  let top := (m.register y).toNat % h
  (left ≤ px ∧ px < min (left + 8) w) ∧ (top ≤ py ∧ py < min (top + rows) h) ∧
    (m.memory.byte (m.index.toNat + (py - top))).toNat.testBit (7 - (px - left)) = true

instance (m : Machine w h) (x y rows : Fin 16) (px py : Nat) : Decidable (m.Flips x y rows px py) :=
  inferInstanceAs (Decidable ((_ ∧ _) ∧ (_ ∧ _) ∧ _))

theorem covers_sprite_iff {m : Machine w h} {x y rows : Fin 16} {px py : Nat} (inside : px < w)
    (below : py < h) : (m.sprite x y rows).covers px py = true ↔ m.Flips x y rows px py := by
  rw [Sprite.covers_iff]
  simp only [sprite, Flips]
  constructor
  · rintro ⟨⟨left, narrow⟩, top, row, here, set⟩
    have listed := (List.getElem?_eq_some_iff.mp here).1
    rw [Memory.length_block] at listed
    rw [Memory.getElem?_block _ _ listed, Option.some.injEq] at here
    exact ⟨⟨left, by omega⟩, ⟨top, by omega⟩, here ▸ set⟩
  · rintro ⟨⟨left, beside⟩, ⟨top, under⟩, set⟩
    exact ⟨⟨left, by omega⟩, top, _, Memory.getElem?_block _ _ (by omega), set⟩

theorem countP_covers_sprite (m : Machine w h) (x y rows : Fin 16) (test : Nat × Nat → Bool) :
    (m.screen.bounds.points.countP fun point =>
        (m.sprite x y rows).covers point.1 point.2 && test point) =
      m.screen.bounds.points.countP fun point =>
        decide (m.Flips x y rows point.1 point.2) && test point := by
  apply List.countP_congr
  intro (px, py) listed
  obtain ⟨inside, below⟩ := Framebuffer.mem_points_bounds.mp listed
  simp only [Bool.and_eq_true, covers_sprite_iff inside below, decide_eq_true_eq]

structure DrawEffect (before : Machine w h) (x y rows : Fin 16) (after : Machine w h) : Prop where
  pixels : ∀ px < w, ∀ py < h, after.screen.pixel px py =
    if before.Flips x y rows px py then before.screen.pixel px py ^^^ 0xFF
    else before.screen.pixel px py
  flag : after.flag = 0 ∨ after.flag = 1
  hit : after.flag = 1 ↔
    ∃ px < w, ∃ py < h, before.Flips x y rows px py ∧ before.screen.pixel px py ≠ 0
  /-- The pixels that flip are counted in, and those of them that were lit out twice. -/
  lit : after.screen.lit + 2 * before.screen.bounds.points.countP (fun point =>
      before.Flips x y rows point.1 point.2 && before.screen.pixel point.1 point.2 != 0) =
    before.screen.lit + before.screen.bounds.points.countP fun point =>
      before.Flips x y rows point.1 point.2
  dirty :
    let left := (before.register x).toNat % w
    let top := (before.register y).toNat % h
    let area : Rect := ⟨left, top, min 8 (w - left), min rows (h - top)⟩
    after.screen.dirty = some (before.screen.dirty.elim area (·.union area))
  registers : ∀ z, z ≠ .last 15 → after.register z = before.register z
  memory : after.memory = before.memory
  index : after.index = before.index

theorem drawsNothing_iff (m : Machine w h) (x y rows : Fin 16) :
    m.drawsNothing rows = true ↔ (m.sprite x y rows).rows = [] ∨ w = 0 ∨ h = 0 := by
  have length : (m.sprite x y rows).rows.length = rows := Memory.length_block _ _ _
  simp only [drawsNothing, Bool.or_eq_true, beq_iff_eq, or_assoc, ← List.length_eq_zero_iff, length]

/-- The picture after an instruction that draws. -/
theorem screen_cycle_of_draw (keys : KeySet) {m : Machine w h} {x y rows : Fin 16}
    (executed : m.executes? = some (.draw x y rows)) :
    (m.cycle keys).1.screen = m.screen.draw (m.sprite x y rows) := by
  have drawn : (m.cycle keys).1.screen =
      if m.drawsNothing rows then m.screen else m.screen.draw (m.sprite x y rows) := by
    rw [(m.cycle_effect keys).screen, executed]
    rfl
  rw [drawn]
  split
  · rename_i nothing
    rw [Framebuffer.draw_of_nothing ((m.drawsNothing_iff x y rows).mp nothing)]
  · rfl

/-- The registers after an instruction that draws. -/
theorem register_cycle_of_draw (keys : KeySet) {m : Machine w h} {x y rows : Fin 16}
    (executed : m.executes? = some (.draw x y rows)) (z : Fin 16) :
    (m.cycle keys).1.register z =
      if z = .last 15 then if m.screen.collides (m.sprite x y rows) then 1 else 0
      else m.register z := by
  have drawn : (m.cycle keys).1.register z =
      if z = .last 15 then
        if !m.drawsNothing rows && m.screen.collides (m.sprite x y rows) then 1 else 0
      else m.register z := register_cycle_of_executes keys executed z
  rw [drawn]
  cases draws : m.drawsNothing rows with
  | true =>
      have misses : m.screen.collides (m.sprite x y rows) = false :=
        Framebuffer.collides_of_nothing ((m.drawsNothing_iff x y rows).mp draws)
      simp [misses]
  | false => rfl

theorem flag_cycle_of_draw (keys : KeySet) {m : Machine w h} {x y rows : Fin 16}
    (executed : m.executes? = some (.draw x y rows)) :
    (m.cycle keys).1.flag = if m.screen.collides (m.sprite x y rows) then 1 else 0 :=
  (register_cycle_of_draw keys executed (.last 15)).trans (if_pos rfl)

theorem flag_cycle_of_draw_iff (keys : KeySet) {m : Machine w h} {x y rows : Fin 16}
    (executed : m.executes? = some (.draw x y rows)) :
    (m.cycle keys).1.flag = 1 ↔ m.screen.collides (m.sprite x y rows) = true := by
  rw [flag_cycle_of_draw keys executed]
  split <;> simp [*]

theorem collides_sprite_iff {m : Machine w h} (plain : m.screen.TwoValued) (x y rows : Fin 16) :
    m.screen.collides (m.sprite x y rows) = true ↔
      ∃ px < w, ∃ py < h, m.Flips x y rows px py ∧ m.screen.pixel px py ≠ 0 := by
  rw [Framebuffer.collides_iff plain]
  constructor
  · rintro ⟨px, inside, py, below, covered, lit⟩
    exact ⟨px, inside, py, below, (covers_sprite_iff inside below).mp covered, lit⟩
  · rintro ⟨px, inside, py, below, flips, lit⟩
    exact ⟨px, inside, py, below, (covers_sprite_iff inside below).mpr flips, lit⟩

/-- The frame of a sprite that is drawn at all has pixels and lies on the display, so marking
it takes in all of it. -/
theorem dirty_draw_sprite (m : Machine w h) (x y : Fin 16) {rows : Fin 16} (wide : 0 < w)
    (high : 0 < h) (some : 0 < rows.val) :
    let left := (m.register x).toNat % w
    let top := (m.register y).toNat % h
    let area : Rect := ⟨left, top, min 8 (w - left), min rows (h - top)⟩
    (m.screen.draw (m.sprite x y rows)).dirty =
      .some (m.screen.dirty.elim area (·.union area)) := by
  intro left top area
  have inside : left < w := Nat.mod_lt _ wide
  have below : top < h := Nat.mod_lt _ high
  have framed : (m.sprite x y rows).area w h = area := by
    simp only [Sprite.area, sprite, Memory.length_block]
    rfl
  have whole : area.clip w h = area :=
    framed ▸ Sprite.clip_area (Nat.le_of_lt inside) (Nat.le_of_lt below)
  have shown : area.isEmpty = false := by
    simp only [area, Rect.isEmpty, Bool.or_eq_false_iff, beq_eq_false_iff_ne]
    omega
  rw [Framebuffer.dirty_draw, framed, Framebuffer.dirty_invalidate, whole, shown]
  rfl

theorem cycle_drawEffect (keys : KeySet) {m : Machine w h} {x y rows : Fin 16} (wide : 0 < w)
    (high : 0 < h) (some : 0 < rows.val) (plain : m.screen.TwoValued)
    (executed : m.executes? = .some (.draw x y rows)) :
    DrawEffect m x y rows (m.cycle keys).1 := by
  have screen := screen_cycle_of_draw keys executed
  obtain ⟨done, effect, _, memory, index⟩ := cycle_of_executes keys executed
  constructor
  · intro px inside py below
    rw [screen, Framebuffer.pixel_draw _ _ inside below]
    simp only [covers_sprite_iff inside below]
  · rw [flag_cycle_of_draw keys executed]
    split
    · exact .inr rfl
    · exact .inl rfl
  · rw [flag_cycle_of_draw_iff keys executed, collides_sprite_iff plain]
  · have counted := Framebuffer.lit_draw plain (m.sprite x y rows)
    have flipped := m.countP_covers_sprite x y rows fun _ => true
    simp only [Bool.and_true] at flipped
    rw [screen]
    rwa [countP_covers_sprite, flipped] at counted
  · rw [screen]
    exact m.dirty_draw_sprite x y wide high some
  · intro z other
    rw [register_cycle_of_draw keys executed, if_neg other]
  · exact memory.trans effect.memory
  · exact index.trans effect.index

/-- On any display, a picture that only programs have changed has no shades, and any word that
draws on it a sprite which memory holds all of draws it exactly. -/
theorem draw_exact (config : Config) (actions : List Action) (keys : KeySet)
    (x y rows : Fin 16) :
    let m : Machine w h := (new config).afterAll actions
    m.screen.TwoValued ∧
      (0 < w → 0 < h → 0 < rows.val → m.Meets (Instruction.drawWord x y rows) →
        m.index.toNat + rows ≤ m.memory.size → DrawEffect m x y rows (m.cycle keys).1) := by
  intro m
  have plain : m.screen.TwoValued := afterAll_twoValued actions (new_twoValued config)
  refine ⟨plain, ?_⟩
  intro wide high some meets fits
  have accepted : m.advance.refusal? (.draw x y rows) = none := by
    simp only [refusal?, blockRefusal?]
    split
    · rfl
    · exact if_neg (Nat.not_lt_of_le fits)
  apply cycle_drawEffect keys wide high some plain
  exact executes?_of_accepted meets.ok meets.running meets.fetched
    (Instruction.decode?_drawWord x y rows) accepted

/-- A digit that is placed by the register of the flag itself, cut off below and on a picture
with a digit on it. -/
theorem draw_exact_of_flag :
    let m : Machine 8 4 := (new { memorySize := 0x208 }).afterAll
      [.load [0xDF, 0xF3, 0x6F, 0x01, 0xDF, 0xF5, 0x12, 0x06], .cycle ∅, .cycle ∅]
    let after := (m.cycle ⟨0x0010⟩).1
    m.Meets (Instruction.drawWord (.last 15) (.last 15) ⟨5, by decide⟩) ∧
      m.index.toNat + 5 ≤ m.memory.size ∧ m.flag = 1 ∧
      DrawEffect m (.last 15) (.last 15) ⟨5, by decide⟩ after ∧ after.flag = 1 ∧
      after.screen.lit = 14 := by
  intro m after
  have ready : m.Meets (Instruction.drawWord (.last 15) (.last 15) ⟨5, by decide⟩) ∧
      m.index.toNat + 5 ≤ m.memory.size ∧ m.flag = 1 ∧ after.flag = 1 ∧
      after.screen.lit = 14 := by
    decide +kernel
  subst after m
  obtain ⟨meets, fits, placed, hit, lit⟩ := ready
  have drawn := (draw_exact (w := 8) (h := 4) { memorySize := 0x208 }
    [.load [0xDF, 0xF3, 0x6F, 0x01, 0xDF, 0xF5, 0x12, 0x06], .cycle ∅, .cycle ∅] ⟨0x0010⟩
    (.last 15) (.last 15) ⟨5, by decide⟩).2 (by decide) (by decide) (by decide) meets fits
  exact ⟨meets, fits, placed, drawn, hit, lit⟩

end Machine

end Chip8
