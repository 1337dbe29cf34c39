import Chip8.Framebuffer

/-!
# Sprites

A sprite is a few rows of eight pixels, a byte a row with the leftmost pixel in the
highest bit.  It is drawn by inverting the pixels under its set bits.  What sticks
out over the right or the lower edge is cut off; only the corner wraps around, and
that is done before a sprite is placed.
-/

set_option autoImplicit false

namespace Chip8

structure Sprite where
  left : Nat
  top : Nat
  rows : List UInt8

namespace Sprite

/-- Whether a row has its bit set in the given column, counted from the left. -/
def rowBit (row : UInt8) (column : Nat) : Bool := column < 8 && row.toNat.testBit (7 - column)

/-- The points of a display of size `w` by `h` that lie under a set bit. -/
def cells (w h : Nat) (sprite : Sprite) : List (Nat × Nat) :=
  sprite.rows.zipIdx.flatMap fun (row, r) =>
    ((List.range 8).filter fun column =>
        rowBit row column && sprite.left + column < w && sprite.top + r < h).map
      fun column => (sprite.left + column, sprite.top + r)

/-- Whether a set bit lies over a point, on the display or off it. -/
def covers (sprite : Sprite) (px py : Nat) : Bool :=
  sprite.left ≤ px && sprite.top ≤ py &&
    (sprite.rows[py - sprite.top]?.any fun row => rowBit row (px - sprite.left))

/-- The part of the sprite's frame that is on the display. -/
def area (w h : Nat) (sprite : Sprite) : Rect :=
  ⟨sprite.left, sprite.top, min 8 (w - sprite.left), min sprite.rows.length (h - sprite.top)⟩

theorem covers_iff {sprite : Sprite} {px py : Nat} :
    sprite.covers px py = true ↔
      (sprite.left ≤ px ∧ px - sprite.left < 8) ∧ sprite.top ≤ py ∧
        ∃ row, sprite.rows[py - sprite.top]? = some row ∧
          row.toNat.testBit (7 - (px - sprite.left)) = true := by
  simp only [covers, rowBit, Bool.and_eq_true, decide_eq_true_eq, Option.any_eq_true]
  constructor
  · rintro ⟨⟨left, top⟩, row, here, narrow, set⟩
    exact ⟨⟨left, narrow⟩, top, row, here, set⟩
  · rintro ⟨⟨left, narrow⟩, top, row, here, set⟩
    exact ⟨⟨left, top⟩, row, here, narrow, set⟩

/-- The cells are the points of the display under a set bit. -/
theorem mem_cells {w h : Nat} {sprite : Sprite} {px py : Nat} :
    (px, py) ∈ sprite.cells w h ↔ sprite.covers px py = true ∧ px < w ∧ py < h := by
  simp only [covers_iff, cells, rowBit, List.mem_flatMap, List.mem_map, List.mem_filter,
    List.mem_range, Prod.exists, Prod.mk.injEq, Bool.and_eq_true, decide_eq_true_eq,
    List.mem_zipIdx_iff_getElem?]
  constructor
  · rintro ⟨row, r, here, column, ⟨_, ⟨⟨narrow, set⟩, inside⟩, below⟩, rfl, rfl⟩
    exact ⟨⟨⟨by omega, by omega⟩, by omega, row, by simpa using here, by simpa using set⟩,
      inside, below⟩
  · rintro ⟨⟨⟨beside, narrow⟩, under, row, here, set⟩, inside, below⟩
    refine ⟨row, py - sprite.top, here, px - sprite.left,
      ⟨narrow, ⟨⟨narrow, set⟩, ?_⟩, ?_⟩, ?_, ?_⟩ <;> omega

theorem nodup_cells (w h : Nat) (sprite : Sprite) : (sprite.cells w h).Nodup := by
  rw [cells, List.Nodup, List.pairwise_flatMap]
  constructor
  · rintro ⟨row, r⟩ _
    refine List.Pairwise.map _ ?_ (List.Pairwise.filter _ List.nodup_range)
    intro a b apart same
    simp only [Prod.mk.injEq] at same
    omega
  · have places : (sprite.rows.zipIdx.map Prod.snd).Nodup := by
      rw [List.zipIdx_map_snd]
      exact List.nodup_range'
    refine List.Pairwise.imp ?_ (List.pairwise_map.mp places)
    rintro ⟨row, r⟩ ⟨other, q⟩ apart a first b second same
    simp only [List.mem_map] at first second
    obtain ⟨_, _, rfl⟩ := first
    obtain ⟨_, _, rfl⟩ := second
    simp only [Prod.mk.injEq] at same
    omega

end Sprite

namespace Framebuffer

variable {w h : Nat}

def flipAll (points : List (Nat × Nat)) (fb : Framebuffer w h) : Framebuffer w h :=
  points.foldl (fun fb point => fb.flip point.1 point.2) fb

/-- Whether drawing the sprite would darken a pixel that is fully lit. -/
def collides (sprite : Sprite) (fb : Framebuffer w h) : Bool :=
  (sprite.cells w h).any fun point => fb.pixel point.1 point.2 == 0xFF

def draw (sprite : Sprite) (fb : Framebuffer w h) : Framebuffer w h :=
  (fb.flipAll (sprite.cells w h)).invalidate (sprite.area w h)

theorem dirty_flipAll (points : List (Nat × Nat)) (fb : Framebuffer w h) :
    (fb.flipAll points).dirty = fb.dirty := by
  induction points generalizing fb with
  | nil => rfl
  | cons point rest ih => rw [flipAll, List.foldl_cons, ← flipAll, ih, dirty_flip]

/-- Flipping points of the display, none twice, inverts exactly those. -/
theorem pixel_flipAll {points : List (Nat × Nat)} (fb : Framebuffer w h)
    (onDisplay : ∀ point ∈ points, point.1 < w ∧ point.2 < h) (once : points.Nodup)
    {px py : Nat} (within : px < w) :
    (fb.flipAll points).pixel px py =
      if (px, py) ∈ points then fb.pixel px py ^^^ 0xFF else fb.pixel px py := by
  induction points generalizing fb with
  | nil => simp [flipAll]
  | cons point rest ih =>
      obtain ⟨x, y⟩ := point
      obtain ⟨inside, below⟩ := onDisplay (x, y) List.mem_cons_self
      obtain ⟨fresh, once⟩ := List.nodup_cons.mp once
      rw [flipAll, List.foldl_cons, ← flipAll,
        ih _ (fun point there => onDisplay point (List.mem_cons_of_mem _ there)) once,
        pixel_flip fb inside below within]
      by_cases same : x = px ∧ y = py
      · obtain ⟨rfl, rfl⟩ := same
        simp [fresh]
      · have other : (px, py) ≠ (x, y) := fun equal => same (by simp_all)
        simp [same, other]

/-- Drawing inverts the pixels that the sprite covers and no other. -/
theorem pixel_draw (sprite : Sprite) (fb : Framebuffer w h) {px py : Nat} (inside : px < w)
    (below : py < h) :
    (fb.draw sprite).pixel px py =
      if sprite.covers px py then fb.pixel px py ^^^ 0xFF else fb.pixel px py := by
  have drawn : (fb.flipAll (sprite.cells w h)).pixel px py =
      if (px, py) ∈ sprite.cells w h then fb.pixel px py ^^^ 0xFF else fb.pixel px py :=
    fb.pixel_flipAll (fun _ there => (Sprite.mem_cells.mp there).2)
      (Sprite.nodup_cells w h sprite) inside
  simp only [Sprite.mem_cells, inside, below, and_self, and_true] at drawn
  simpa [pixel, draw] using drawn

end Framebuffer

end Chip8
