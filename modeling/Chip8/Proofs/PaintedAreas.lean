import Chip8.Proofs.Checked.Painting

/-!
# What painting writes, byte by byte

Painting an area writes the channels of the pixels that the area has on the display, and no
other byte of a surface, which may be longer than the display or too short for it.  So what a
surface shows after several areas have been painted hangs on which pixels they have together,
and not on their order or on how often a pixel was painted.
-/

set_option autoImplicit false

namespace Chip8

theorem Surface.getElem?_put_of_ne {pixel place : Nat} (apart : place / 3 ≠ pixel) (color : Color)
    (surface : Surface) : (surface.put pixel color)[place]? = surface[place]? := by
  have first : pixel * 3 ≠ place := by omega
  have second : pixel * 3 + 1 ≠ place := by omega
  have third : pixel * 3 + 2 ≠ place := by omega
  simp only [put, Array.getElem?_setIfInBounds, first, second, third, if_false]

namespace Framebuffer

open Rect (contains_clip_iff)

variable {w h : Nat}

/-! ## One area -/

def Touches (w h : Nat) (area : Rect) (place : Nat) : Prop :=
  ∃ x y, (area.clip w h).contains x y = true ∧ place / 3 = y * w + x

theorem getElem?_paintPoints {place : Nat} (palette : Palette) (fb : Framebuffer w h)
    (points : List (Nat × Nat)) (surface : Surface)
    (elsewhere : ∀ point ∈ points, place / 3 ≠ point.2 * w + point.1) :
    (fb.paintPoints palette points surface)[place]? = surface[place]? := by
  induction points generalizing surface with
  | nil => rfl
  | cons point rest ih =>
      obtain ⟨here, later⟩ := List.forall_mem_cons.mp elsewhere
      rw [paintPoints, ih _ later, Surface.getElem?_put_of_ne here]

theorem contains_of_paintedArea {fb : Framebuffer w h} {area : Rect} {surface : Surface}
    {x y : Nat} (painted : (fb.paintedArea area surface).contains x y = true) :
    (area.clip w h).contains x y = true ∧ Surface.lengthFor w h ≤ surface.size := by
  unfold paintedArea at painted
  dsimp only at painted
  split at painted
  · rw [Rect.contains_of_isEmpty rfl] at painted
    cases painted
  · rename_i visible
    simp only [Bool.or_eq_true, decide_eq_true_eq, not_or, Nat.not_lt] at visible
    exact ⟨painted, visible.2⟩

theorem getElem?_paint_of_untouched {palette : Palette} {fb : Framebuffer w h} {area : Rect}
    {surface : Surface} {place : Nat} (untouched : ¬ Touches w h area place) :
    (fb.paint palette area surface)[place]? = surface[place]? := by
  apply getElem?_paintPoints
  intro point listed here
  exact untouched ⟨point.1, point.2, (contains_of_paintedArea (Rect.mem_points.mp listed)).1, here⟩

theorem getElem?_paint_of_touched {palette : Palette} {fb : Framebuffer w h} {area : Rect}
    {surface : Surface} {place : Nat} (long : Surface.lengthFor w h ≤ surface.size)
    (touched : Touches w h area place) :
    (fb.paint palette area surface)[place]? = (fb.render palette)[place]? := by
  obtain ⟨x, y, visible, here⟩ := touched
  obtain ⟨contained, inside, below⟩ := contains_clip_iff.mp visible
  have painted := color?_paint palette fb long inside below area
  have rendered : (fb.render palette).color? (y * w + x) = some (palette.color (fb.pixel x y)) :=
    color?_render inside below
  rw [if_pos contained, ← here] at painted
  rw [← here] at rendered
  rw [Surface.getElem?_of_color? painted, Surface.getElem?_of_color? rendered]

theorem paintedArea_of_hidden {fb : Framebuffer w h} {area : Rect} {surface : Surface}
    (hidden : surface.size < Surface.lengthFor w h ∨
      ∀ x < w, ∀ y < h, area.contains x y = false) : fb.paintedArea area surface = .zero := by
  apply if_pos
  rw [Bool.or_eq_true, decide_eq_true_eq]
  rcases hidden with short | offDisplay
  · exact .inr short
  · left
    apply Classical.byContradiction
    intro visible
    obtain ⟨contained, inside, below⟩ :=
      contains_clip_iff.mp (Rect.contains_corner (Bool.not_eq_true _ ▸ visible))
    rw [offDisplay _ inside _ below] at contained
    cases contained

theorem paintedArea_of_shown {fb : Framebuffer w h} {area : Rect} {surface : Surface}
    (long : Surface.lengthFor w h ≤ surface.size)
    (shown : ∃ x < w, ∃ y < h, area.contains x y = true) :
    fb.paintedArea area surface = area.clip w h := by
  apply if_neg
  rw [Bool.or_eq_true, decide_eq_true_eq, not_or]
  refine ⟨?_, Nat.not_lt.mpr long⟩
  intro empty
  obtain ⟨x, inside, y, below, contained⟩ := shown
  have hidden := Rect.contains_of_isEmpty empty x y
  rw [contains_clip_iff.mpr ⟨contained, inside, below⟩] at hidden
  cases hidden

theorem paint_of_hidden {palette : Palette} {fb : Framebuffer w h} {area : Rect}
    {surface : Surface} (hidden : surface.size < Surface.lengthFor w h ∨
      ∀ x < w, ∀ y < h, area.contains x y = false) :
    fb.paint palette area surface = surface := by
  rw [paint, paintedArea_of_hidden hidden]
  rfl

/-- What painting an area does to a surface and what it answers.  A byte belongs to a pixel by
its place, the third part of which is the number of the pixel. -/
structure PaintsExactly (palette : Palette) (fb : Framebuffer w h) (area : Rect)
    (surface : Surface) : Prop where
  /-- All pixels that are read are on the picture, all bytes that are written on the surface. -/
  inRange : ∀ point ∈ (fb.paintedArea area surface).points,
    point.2 * w + point.1 < w * h ∧ (point.2 * w + point.1) * 3 + 2 < surface.size
  /-- The loops over slices, in machine words, are answered. -/
  answered : area.right < 2 ^ 64 → area.bottom < 2 ^ 64 → Surface.lengthFor w h < 2 ^ 64 →
    Checked.paint palette area fb surface =
      some (fb.paint palette area surface, fb.paintedArea area surface)
  hidden : (surface.size < Surface.lengthFor w h ∨
      ∀ x < w, ∀ y < h, area.contains x y = false) →
    fb.paintedArea area surface = .zero ∧ fb.paint palette area surface = surface
  shown : Surface.lengthFor w h ≤ surface.size →
    (∃ x < w, ∃ y < h, area.contains x y = true) →
      fb.paintedArea area surface = area.clip w h
  inside : Surface.lengthFor w h ≤ surface.size →
    ∀ x y, (area.clip w h).contains x y = true →
      (fb.paint palette area surface).color? (y * w + x) =
        some (if fb.pixel x y ≠ 0 then palette.on else palette.off)
  outside : ∀ place, ¬ Touches w h area place →
    (fb.paint palette area surface)[place]? = surface[place]?

theorem color_eq (palette : Palette) (pixel : UInt8) :
    palette.color pixel = if pixel ≠ 0 then palette.on else palette.off := by
  simp [Palette.color]

theorem paintsExactly (palette : Palette) (fb : Framebuffer w h) (area : Rect)
    (surface : Surface) : fb.PaintsExactly palette area surface := by
  constructor
  case inRange =>
    intro point listed
    obtain ⟨visible, long⟩ := contains_of_paintedArea (Rect.mem_points.mp listed)
    obtain ⟨_, inside, below⟩ := contains_clip_iff.mp visible
    have place := place_lt inside below
    rw [Surface.lengthFor] at long
    omega
  case answered => exact fun right bottom counted => Checked.paint_eq right bottom counted
  case hidden => exact fun hidden => ⟨paintedArea_of_hidden hidden, paint_of_hidden hidden⟩
  case shown => exact fun long shown => paintedArea_of_shown long shown
  case inside =>
    intro long x y visible
    obtain ⟨contained, inside, below⟩ := contains_clip_iff.mp visible
    rw [color?_paint palette fb long inside below, if_pos contained, color_eq]
  case outside => exact fun place untouched => getElem?_paint_of_untouched untouched

/-! ## Area after area -/

def paintAll (palette : Palette) (fb : Framebuffer w h) : List Rect → Surface → Surface
  | [], surface => surface
  | area :: later, surface => fb.paintAll palette later (fb.paint palette area surface)

theorem paintAll_of_short {palette : Palette} {fb : Framebuffer w h} {surface : Surface}
    (short : surface.size < Surface.lengthFor w h) (areas : List Rect) :
    fb.paintAll palette areas surface = surface := by
  induction areas with
  | nil => rfl
  | cons area later ih => rw [paintAll, paint_of_hidden (.inl short), ih]

theorem getElem?_paintAll_of_untouched {palette : Palette} {fb : Framebuffer w h} {place : Nat}
    {areas : List Rect} (untouched : ∀ area ∈ areas, ¬ Touches w h area place)
    (surface : Surface) : (fb.paintAll palette areas surface)[place]? = surface[place]? := by
  induction areas generalizing surface with
  | nil => rfl
  | cons area later ih =>
      obtain ⟨here, after⟩ := List.forall_mem_cons.mp untouched
      rw [paintAll, ih after, getElem?_paint_of_untouched here]

/-- The last area that touches a byte decides, and any area would write the same. -/
theorem getElem?_paintAll_of_touched {palette : Palette} {fb : Framebuffer w h} {place : Nat}
    {areas : List Rect} (touched : ∃ area ∈ areas, Touches w h area place) {surface : Surface}
    (long : Surface.lengthFor w h ≤ surface.size) :
    (fb.paintAll palette areas surface)[place]? = (fb.render palette)[place]? := by
  induction areas generalizing surface with
  | nil =>
      obtain ⟨area, listed, _⟩ := touched
      cases listed
  | cons area later ih =>
      have stillLong : Surface.lengthFor w h ≤ (fb.paint palette area surface).size := by
        rwa [size_paint]
      by_cases again : ∃ area ∈ later, Touches w h area place
      · exact ih again stillLong
      · have here : Touches w h area place := by
          obtain ⟨other, listed, touches⟩ := touched
          rcases List.mem_cons.mp listed with rfl | after
          · exact touches
          · exact absurd ⟨other, after, touches⟩ again
        have untouched : ∀ area ∈ later, ¬ Touches w h area place := by
          intro other after touches
          exact again ⟨other, after, touches⟩
        rw [paintAll, getElem?_paintAll_of_untouched untouched,
          getElem?_paint_of_touched long here]

/-- Areas that touch the same bytes leave the same surface. -/
theorem paintAll_congr (palette : Palette) (fb : Framebuffer w h) {areas others : List Rect}
    (same : ∀ place, (∃ area ∈ areas, Touches w h area place) ↔
      ∃ area ∈ others, Touches w h area place) (surface : Surface) :
    fb.paintAll palette areas surface = fb.paintAll palette others surface := by
  by_cases long : Surface.lengthFor w h ≤ surface.size
  · apply Array.ext_getElem?
    intro place
    by_cases touched : ∃ area ∈ areas, Touches w h area place
    · rw [getElem?_paintAll_of_touched touched long,
        getElem?_paintAll_of_touched ((same place).mp touched) long]
    · have untouched : ∀ area ∈ areas, ¬ Touches w h area place := by
        intro area listed touches
        exact touched ⟨area, listed, touches⟩
      have others_untouched : ∀ area ∈ others, ¬ Touches w h area place := by
        intro area listed touches
        exact touched ((same place).mpr ⟨area, listed, touches⟩)
      rw [getElem?_paintAll_of_untouched untouched,
        getElem?_paintAll_of_untouched others_untouched]
  · have short := Nat.lt_of_not_le long
    rw [paintAll_of_short short, paintAll_of_short short]

/-- Areas that cover the display touch what all of the display touches. -/
theorem touches_of_covering {areas : List Rect}
    (covering : ∀ x < w, ∀ y < h, ∃ area ∈ areas, area.contains x y = true) (place : Nat) :
    (∃ area ∈ areas, Touches w h area place) ↔
      ∃ area ∈ [(⟨0, 0, w, h⟩ : Rect)], Touches w h area place := by
  constructor
  · rintro ⟨area, _, x, y, visible, here⟩
    obtain ⟨_, inside, below⟩ := contains_clip_iff.mp visible
    have display : Rect.contains ⟨0, 0, w, h⟩ x y = true := by
      simp [Rect.contains_iff, Rect.right, Rect.bottom, inside, below]
    exact ⟨_, List.mem_singleton_self _, x, y,
      contains_clip_iff.mpr ⟨display, inside, below⟩, here⟩
  · rintro ⟨_, _, x, y, visible, here⟩
    obtain ⟨_, inside, below⟩ := contains_clip_iff.mp visible
    obtain ⟨area, listed, contained⟩ := covering x inside y below
    exact ⟨area, listed, x, y, contains_clip_iff.mpr ⟨contained, inside, below⟩, here⟩

/-- Painting an area colors the pixels that it has on the display, each by whether its byte is
zero, and leaves every other byte of the surface; it answers the part painted, and it neither
reads nor writes where there is nothing.  Hence areas that cover the display, painted in any
order, make what painting all of the display makes. -/
theorem paint_exact (palette : Palette) (fb : Framebuffer w h) (surface : Surface) :
    (∀ area, fb.PaintsExactly palette area surface) ∧
      ∀ areas : List Rect, (∀ x < w, ∀ y < h, ∃ area ∈ areas, area.contains x y = true) →
        ∀ order : List Rect, order.Perm areas →
          fb.paintAll palette order surface = fb.paint palette fb.bounds surface := by
  refine ⟨fun area => fb.paintsExactly palette area surface, ?_⟩
  intro areas covering order perm
  have stillCovering : ∀ x < w, ∀ y < h, ∃ area ∈ order, area.contains x y = true := by
    intro x inside y below
    obtain ⟨area, listed, contained⟩ := covering x inside y below
    exact ⟨area, perm.mem_iff.mpr listed, contained⟩
  exact fb.paintAll_congr palette (touches_of_covering stillCovering) surface

/-- An area that sticks out at two edges, painted on a surface that is two bytes too long, and
three areas that cover the display between them, two of them overlapping. -/
theorem paint_exact_of_overhang :
    let fb : Framebuffer 4 2 := blank.flip 3 1
    let palette : Palette := { on := .white, off := .black }
    let surface : Surface := Array.replicate 26 0x55
    let area : Rect := ⟨2, 1, 10, 10⟩
    let areas : List Rect := [⟨1, 0, 9, 9⟩, ⟨0, 0, 2, 1⟩, ⟨0, 1, 3, 7⟩]
    Checked.paint palette area fb surface = some (fb.paint palette area surface, ⟨2, 1, 2, 1⟩) ∧
      (fb.paint palette area surface).color? 7 = some .white ∧
      (fb.paint palette area surface)[24]? = some 0x55 ∧
      fb.paintAll palette areas.reverse surface = fb.paint palette fb.bounds surface := by
  intro fb palette surface area areas
  obtain ⟨single, together⟩ := paint_exact palette fb surface
  obtain ⟨_, answered, _, shown, inside, outside⟩ := single area
  have long : Surface.lengthFor 4 2 ≤ surface.size := by decide
  have corner : area.contains 2 1 = true := by decide
  have visible : fb.paintedArea area surface = ⟨2, 1, 2, 1⟩ :=
    shown long ⟨2, by decide, 1, by decide, corner⟩
  have untouched : ¬ Touches 4 2 area 24 := by
    rintro ⟨x, y, contained, here⟩
    obtain ⟨_, left, below⟩ := contains_clip_iff.mp contained
    omega
  have covering : ∀ x < 4, ∀ y < 2, ∃ area ∈ areas, area.contains x y = true := by decide
  refine ⟨?_, inside long 3 1 (by decide), outside 24 untouched,
    together areas covering _ areas.reverse_perm⟩
  rw [answered (by decide) (by decide) (by decide), visible]

end Framebuffer

end Chip8
