import Chip8.Surface

/-!
# Painting, pixel by pixel

A surface is read back here as colors, one to a pixel, and painting an area turns out
to color exactly the pixels of the picture that lie in it.  `render` is the surface
that shows all of a picture; painting never looks at it, it is what painting is held
against.
-/

set_option autoImplicit false

namespace Chip8

namespace Surface

def color? (pixel : Nat) (surface : Surface) : Option Color := do
  let red ← surface[pixel * 3]?
  let green ← surface[pixel * 3 + 1]?
  let blue ← surface[pixel * 3 + 2]?
  return ⟨red, green, blue⟩

theorem color?_eq_some {pixel : Nat} {surface : Surface} {color : Color} :
    surface.color? pixel = some color ↔
      surface[pixel * 3]? = some color.red ∧ surface[pixel * 3 + 1]? = some color.green ∧
        surface[pixel * 3 + 2]? = some color.blue := by
  constructor
  · intro colored
    simp only [color?, Option.bind_eq_bind, Option.bind_eq_some_iff] at colored
    obtain ⟨red, isRed, green, isGreen, blue, isBlue, whole⟩ := colored
    cases whole
    exact ⟨isRed, isGreen, isBlue⟩
  · rintro ⟨isRed, isGreen, isBlue⟩
    simp [color?, isRed, isGreen, isBlue]

/-- A byte of a surface is a channel of the pixel that it belongs to. -/
theorem getElem?_of_color? {surface : Surface} {place : Nat} {color : Color}
    (colored : surface.color? (place / 3) = some color) :
    surface[place]? = some (color.channels.getD (place % 3) 0) := by
  obtain ⟨red, green, blue⟩ := color?_eq_some.mp colored
  have channel : place = place / 3 * 3 ∨ place = place / 3 * 3 + 1 ∨
      place = place / 3 * 3 + 2 := by omega
  rcases channel with first | second | third
  · have rank : place % 3 = 0 := by omega
    rw [rank, first, red]
    rfl
  · have rank : place % 3 = 1 := by omega
    rw [rank, second, green]
    rfl
  · have rank : place % 3 = 2 := by omega
    rw [rank, third, blue]
    rfl

theorem color?_put_self {pixel : Nat} {surface : Surface} (color : Color)
    (inside : pixel * 3 + 2 < surface.size) :
    (surface.put pixel color).color? pixel = some color := by
  have red : pixel * 3 < surface.size := by omega
  have green : pixel * 3 + 1 < surface.size := by omega
  rw [color?_eq_some]
  simp [put, red, green, inside]

theorem color?_put_of_ne {pixel other : Nat} (surface : Surface) (color : Color)
    (apart : other ≠ pixel) : (surface.put pixel color).color? other = surface.color? other := by
  have distant : ∀ i < 3, ∀ j < 3, pixel * 3 + i ≠ other * 3 + j := by
    intro i iSmall j jSmall same
    omega
  have kept : ∀ j < 3, (surface.put pixel color)[other * 3 + j]? = surface[other * 3 + j]? := by
    intro j small
    have first : pixel * 3 ≠ other * 3 + j := distant 0 (by decide) j small
    have second := distant 1 (by decide) j small
    have third := distant 2 (by decide) j small
    simp only [put, Array.getElem?_setIfInBounds, third, second, first, if_false]
  have red := kept 0 (by decide)
  have green := kept 1 (by decide)
  have blue := kept 2 (by decide)
  rw [Nat.add_zero] at red
  simp only [color?, red, green, blue]

/-- A surface is known by the colors of its pixels. -/
theorem ext_color? {a b : Surface} (pixels : Nat) (aSize : a.size = pixels * 3)
    (bSize : b.size = pixels * 3)
    (same : ∀ pixel < pixels, ∃ color,
      a.color? pixel = some color ∧ b.color? pixel = some color) : a = b := by
  apply Array.ext_getElem?
  intro place
  by_cases inside : place < pixels * 3
  · obtain ⟨color, inA, inB⟩ := same (place / 3) (by omega)
    rw [getElem?_of_color? inA, getElem?_of_color? inB]
  · rw [Array.getElem?_eq_none (by omega), Array.getElem?_eq_none (by omega)]

def ofColors (pixels : Nat) (color : Nat → Color) : Surface :=
  Array.ofFn fun k : Fin (pixels * 3) => (color (k / 3)).channels.getD (k % 3) 0

@[simp] theorem size_ofColors (pixels : Nat) (color : Nat → Color) :
    (ofColors pixels color).size = pixels * 3 := Array.size_ofFn

theorem color?_ofColors {pixels pixel : Nat} (color : Nat → Color) (inside : pixel < pixels) :
    (ofColors pixels color).color? pixel = some (color pixel) := by
  have channel : ∀ j < 3, (ofColors pixels color)[pixel * 3 + j]? =
      some ((color pixel).channels.getD j 0) := by
    intro j small
    have place : pixel * 3 + j < pixels * 3 := by omega
    have owner : (pixel * 3 + j) / 3 = pixel := by omega
    have rank : (pixel * 3 + j) % 3 = j := by omega
    simp only [ofColors, Array.getElem?_ofFn, place, dite_true, owner, rank]
  rw [color?_eq_some]
  exact ⟨channel 0 (by decide), channel 1 (by decide), channel 2 (by decide)⟩

theorem size_filled (pixels : Nat) (color : Color) : (filled pixels color).size = pixels * 3 :=
  Array.size_ofFn

theorem color?_filled {pixels pixel : Nat} (color : Color) (inside : pixel < pixels) :
    (filled pixels color).color? pixel = some color :=
  color?_ofColors (fun _ => color) inside

end Surface

namespace Framebuffer

variable {w h : Nat}

def render (palette : Palette) (fb : Framebuffer w h) : Surface :=
  .ofColors (w * h) fun place => palette.color (fb.pixels[place]?.getD 0)

@[simp] theorem size_render (palette : Palette) (fb : Framebuffer w h) :
    (fb.render palette).size = Surface.lengthFor w h := Surface.size_ofColors _ _

theorem color?_render {palette : Palette} {fb : Framebuffer w h} {x y : Nat} (inside : x < w)
    (below : y < h) :
    (fb.render palette).color? (y * w + x) = some (palette.color (fb.pixel x y)) :=
  Surface.color?_ofColors _ (place_lt inside below)

theorem exists_place {place : Nat} (inside : place < w * h) :
    ∃ x y, x < w ∧ y < h ∧ place = y * w + x := by
  have wide : 0 < w := Nat.pos_of_mul_pos_right (Nat.zero_lt_of_lt inside)
  refine ⟨place % w, place / w, Nat.mod_lt _ wide, Nat.div_lt_of_lt_mul inside, ?_⟩
  rw [Nat.mul_comm, Nat.div_add_mod]

theorem pixels_ext {a b : Framebuffer w h}
    (same : ∀ x < w, ∀ y < h, a.pixel x y = b.pixel x y) : a.pixels = b.pixels := by
  apply Vector.ext
  intro place inside
  obtain ⟨x, y, column, row, rfl⟩ := exists_place inside
  simpa [pixel, inside] using same x column y row

theorem eq_render {palette : Palette} {fb : Framebuffer w h} {surface : Surface}
    (size : surface.size = Surface.lengthFor w h)
    (shown : ∀ x < w, ∀ y < h,
      surface.color? (y * w + x) = some (palette.color (fb.pixel x y))) :
    surface = fb.render palette := by
  apply Surface.ext_color? (w * h) size (size_render _ _)
  intro place inside
  obtain ⟨x, y, column, row, rfl⟩ := exists_place inside
  exact ⟨_, shown x column y row, color?_render column row⟩

/-! ## What painting colors -/

theorem color?_paintPoints {palette : Palette} {fb : Framebuffer w h} {x y : Nat} (inside : x < w) :
    ∀ (points : List (Nat × Nat)) (surface : Surface),
      Surface.lengthFor w h ≤ surface.size →
      (∀ point ∈ points, point.1 < w ∧ point.2 < h) →
      (fb.paintPoints palette points surface).color? (y * w + x) =
        if (x, y) ∈ points then some (palette.color (fb.pixel x y))
        else surface.color? (y * w + x) := by
  intro points
  induction points with
  | nil =>
      intro surface long onDisplay
      rfl
  | cons point rest ih =>
      intro surface long onDisplay
      obtain ⟨px, py⟩ := point
      obtain ⟨column, row⟩ := onDisplay (px, py) List.mem_cons_self
      have later : ∀ point ∈ rest, point.1 < w ∧ point.2 < h := by
        intro other there
        exact onDisplay other (List.mem_cons_of_mem _ there)
      -- A point that is listed again is painted again, in the same color.
      rw [paintPoints, ih _ (by rwa [Surface.size_put]) later]
      by_cases again : (x, y) ∈ rest
      · simp [again]
      · by_cases here : x = px ∧ y = py
        · obtain ⟨rfl, rfl⟩ := here
          have place : y * w + x < w * h := place_lt column row
          have room : (y * w + x) * 3 + 2 < surface.size := by
            rw [Surface.lengthFor] at long
            omega
          simp [again, Surface.color?_put_self _ room]
        · have apart : y * w + x ≠ py * w + px := by
            intro same
            exact here ((place_inj inside column).mp same)
          have other : (x, y) ≠ (px, py) := by
            intro same
            exact here (Prod.mk.inj same)
          simp [again, other, Surface.color?_put_of_ne _ _ apart]

theorem contains_paintedArea {fb : Framebuffer w h} {surface : Surface}
    (long : Surface.lengthFor w h ≤ surface.size) (area : Rect) (x y : Nat) :
    (fb.paintedArea area surface).contains x y =
      (area.contains x y && decide (x < w) && decide (y < h)) := by
  rw [← Rect.contains_clip]
  simp only [paintedArea, Nat.not_lt.mpr long, decide_false, Bool.or_false]
  split
  · rename_i empty
    rw [Rect.contains_of_isEmpty empty, Rect.contains_of_isEmpty rfl]
  · rfl

/-- Painting colors the pixels of the area and leaves the others. -/
theorem color?_paint (palette : Palette) (fb : Framebuffer w h) {surface : Surface} {x y : Nat}
    (long : Surface.lengthFor w h ≤ surface.size) (inside : x < w) (below : y < h)
    (area : Rect) :
    (fb.paint palette area surface).color? (y * w + x) =
      if area.contains x y then some (palette.color (fb.pixel x y))
      else surface.color? (y * w + x) := by
  have onDisplay : ∀ point ∈ (fb.paintedArea area surface).points,
      point.1 < w ∧ point.2 < h := by
    intro point listed
    have contained := Rect.mem_points.mp listed
    simp only [contains_paintedArea long, Bool.and_eq_true, decide_eq_true_eq] at contained
    exact ⟨contained.1.2, contained.2⟩
  rw [paint, color?_paintPoints inside _ _ long onDisplay]
  simp only [Rect.mem_points, contains_paintedArea long, inside, below, decide_true, Bool.and_true]

end Framebuffer

end Chip8
