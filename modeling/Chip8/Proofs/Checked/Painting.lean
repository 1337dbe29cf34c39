import Chip8.Proofs.Checked.Picture
import Chip8.Proofs.Painting

/-!
# Checked painting

Painting an area as a loop over its rows: the pixels of a row are a slice of the picture, their
colors go into a slice of the surface, three bytes to a pixel, and either slice has to be there.
All of this is answered wherever the edges of the area and the bytes of a whole surface can be
counted in a word, for a surface of any length.
-/

set_option autoImplicit false

namespace Chip8

/-- The rows of an area, one below the other, are its points. -/
theorem Rect.points_eq_rows (area : Rect) :
    area.points = (List.range' area.y area.height).flatMap fun row =>
      (List.range area.width).map fun column => (area.x + column, row) := by
  rw [points, List.range'_eq_map_range, List.flatMap_map]

namespace Framebuffer

variable {w h : Nat}

def paintPoint (palette : Palette) (fb : Framebuffer w h) (surface : Surface)
    (point : Nat × Nat) : Surface :=
  surface.put (point.2 * w + point.1) (palette.color (fb.pixel point.1 point.2))

theorem paintPoints_eq_foldl (palette : Palette) (fb : Framebuffer w h)
    (points : List (Nat × Nat)) (surface : Surface) :
    fb.paintPoints palette points surface = points.foldl (fb.paintPoint palette) surface := by
  induction points generalizing surface with
  | nil => rfl
  | cons point rest ih => exact ih _

theorem size_paintPoint (palette : Palette) (fb : Framebuffer w h) (surface : Surface)
    (point : Nat × Nat) : (fb.paintPoint palette surface point).size = surface.size :=
  Surface.size_put _ _ _

end Framebuffer

namespace Checked

variable {w h : Nat}

def put (start : Nat) (color : Color) (surface : Surface) : Option Surface :=
  if start + 3 ≤ surface.size then
    some (((surface.setIfInBounds start color.red).setIfInBounds (start + 1)
      color.green).setIfInBounds (start + 2) color.blue)
  else
    none

/-- Paint a pixel of a row whose first pixel has number `first` and whose first byte is at
`start`. -/
def paintPixel (palette : Palette) (fb : Framebuffer w h) (first start : Nat)
    (surface : Surface) (column : Nat) : Option Surface := do
  let byte ← fb.pixels[first + column]?
  put (start + column * 3) (palette.color byte) surface

def paintRow (palette : Palette) (area : Rect) (fb : Framebuffer w h) (surface : Surface)
    (row : Nat) : Option Surface := do
  let (first, stop) ← line row area.x fb
  let start ← mul 64 (← add 64 (← mul 64 row w) area.x) 3
  let past ← add 64 start (← mul 64 area.width 3)
  if area.width ≤ stop - first ∧ past ≤ surface.size then
    (List.range area.width).foldlM (paintPixel palette fb first start) surface
  else
    none

def paint (palette : Palette) (area : Rect) (fb : Framebuffer w h) (surface : Surface) :
    Option (Surface × Rect) := do
  let visible ← clip w h area
  if visible.isEmpty then return (surface, .zero)
  else
    let length ← mul 64 (← mul 64 w h) 3
    if surface.size < length then return (surface, .zero)
    else
      let bottom ← add 64 visible.y visible.height
      let painted ← (List.range' visible.y (bottom - visible.y)).foldlM
        (paintRow palette visible fb) surface
      return (painted, visible)

theorem put_eq {pixel : Nat} {surface : Surface} (inside : pixel * 3 + 3 ≤ surface.size)
    (color : Color) : put (pixel * 3) color surface = some (surface.put pixel color) :=
  if_pos inside

theorem paintPixel_eq {palette : Palette} {fb : Framebuffer w h} {left row column : Nat}
    {surface : Surface} (long : Surface.lengthFor w h ≤ surface.size) (inside : left + column < w)
    (below : row < h) :
    paintPixel palette fb (row * w + left) ((row * w + left) * 3) surface column =
      some (fb.paintPoint palette surface (left + column, row)) := by
  have place : row * w + (left + column) < w * h := Framebuffer.place_lt inside below
  have room : (row * w + (left + column)) * 3 + 3 ≤ surface.size := by
    rw [Surface.lengthFor] at long
    omega
  have there : fb.pixels[row * w + (left + column)]? = some (fb.pixel (left + column) row) := by
    simp [Framebuffer.pixel, place]
  rw [paintPixel, ← Nat.add_mul, Nat.add_assoc, there, Option.bind_eq_bind, Option.bind_some,
    put_eq room]
  rfl

theorem paintRow_eq {palette : Palette} {area : Rect} {fb : Framebuffer w h} {surface : Surface}
    {row : Nat} (countable : Countable w h) (counted : Surface.lengthFor w h < 2 ^ 64)
    (long : Surface.lengthFor w h ≤ surface.size) (inside : area.right ≤ w) (below : row < h) :
    paintRow palette area fb surface row =
      some (((List.range area.width).map fun column => (area.x + column, row)).foldl
        (fb.paintPoint palette) surface) := by
  have rows : (row + 1) * w ≤ h * w := Nat.mul_le_mul_right w below
  rw [Nat.add_mul, Nat.one_mul, Nat.mul_comm h w] at rows
  have needed : w * h * 3 < 2 ^ 64 ∧ w * h * 3 ≤ surface.size := ⟨counted, long⟩
  rw [Rect.right] at inside
  have left : area.x ≤ w := Nat.le_of_add_right_le inside
  have start : row * w < 2 ^ 64 := by omega
  have first : row * w + area.x < 2 ^ 64 := by omega
  have place : (row * w + area.x) * 3 < 2 ^ 64 := by omega
  have bytes : area.width * 3 < 2 ^ 64 := by omega
  have past : (row * w + area.x) * 3 + area.width * 3 < 2 ^ 64 := by omega
  have room : area.width ≤ row * w + w - (row * w + area.x) ∧
      (row * w + area.x) * 3 + area.width * 3 ≤ surface.size := by omega
  have pixels : ∀ column ∈ List.range area.width, ∀ state : Surface, state.size = surface.size →
      paintPixel palette fb (row * w + area.x) ((row * w + area.x) * 3) state column =
          some (fb.paintPoint palette state (area.x + column, row)) ∧
        (fb.paintPoint palette state (area.x + column, row)).size = surface.size := by
    intro column listed state size
    have narrow := List.mem_range.mp listed
    exact ⟨paintPixel_eq (size ▸ long) (by omega) below,
      (fb.size_paintPoint palette state _).trans size⟩
  simp only [paintRow, line_eq countable below left, mul_eq start, add_eq first, mul_eq place,
    mul_eq bytes, add_eq past, Option.bind_eq_bind, Option.bind_some, if_pos room,
    List.foldl_map]
  exact foldlM_eq_foldl_of_keeps (P := fun state : Surface => state.size = surface.size)
    _ surface rfl pixels

theorem paintRows_eq {palette : Palette} {area : Rect} {fb : Framebuffer w h} {surface : Surface}
    (countable : Countable w h) (counted : Surface.lengthFor w h < 2 ^ 64)
    (long : Surface.lengthFor w h ≤ surface.size) (inside : area.right ≤ w)
    (under : area.bottom ≤ h) :
    (List.range' area.y area.height).foldlM (paintRow palette area fb) surface =
      some (fb.paintPoints palette area.points surface) := by
  have rows : ∀ row ∈ List.range' area.y area.height, ∀ state : Surface,
      state.size = surface.size →
        paintRow palette area fb state row =
            some (((List.range area.width).map fun column => (area.x + column, row)).foldl
              (fb.paintPoint palette) state) ∧
          (((List.range area.width).map fun column => (area.x + column, row)).foldl
            (fb.paintPoint palette) state).size = surface.size := by
    intro row listed state size
    have below : row < h := Nat.lt_of_lt_of_le (List.mem_range'_1.mp listed).2 under
    refine ⟨paintRow_eq countable counted (size ▸ long) inside below, ?_⟩
    rw [← Framebuffer.paintPoints_eq_foldl, Framebuffer.size_paintPoints, size]
  rw [foldlM_eq_foldl_of_keeps (P := fun state : Surface => state.size = surface.size) _ surface
    rfl rows, Framebuffer.paintPoints_eq_foldl, Rect.points_eq_rows, List.foldl_flatMap]

/-- The whole surface has to be counted in a word even where it turns out to be too short. -/
theorem paint_eq {palette : Palette} {area : Rect} {fb : Framebuffer w h} {surface : Surface}
    (right : area.right < 2 ^ 64) (bottom : area.bottom < 2 ^ 64)
    (counted : Surface.lengthFor w h < 2 ^ 64) :
    paint palette area fb surface =
      some (fb.paint palette area surface, fb.paintedArea area surface) := by
  simp only [paint, clip_eq right bottom, Option.bind_eq_bind, Option.bind_some,
    Framebuffer.paint, Framebuffer.paintedArea]
  obtain ⟨inside, under⟩ := Rect.clip_within w h area
  cases empty : (area.clip w h).isEmpty with
  | true => rfl
  | false =>
      obtain ⟨wide, high⟩ : 0 < w ∧ 0 < h := by
        simp only [Rect.isEmpty, Bool.or_eq_false_iff, beq_eq_false_iff_ne] at empty
        simp only [Rect.right, Rect.bottom] at inside under
        omega
      have needed : w * h * 3 < 2 ^ 64 := counted
      have countable : Countable w h := by
        have columns : w ≤ w * h := Nat.le_mul_of_pos_right w high
        have rows : h ≤ w * h := Nat.le_mul_of_pos_left h wide
        constructor <;> omega
      simp only [Bool.false_or, mul_eq countable.pixels, mul_eq needed, Option.bind_some,
        Bool.false_eq_true, if_false, Surface.lengthFor]
      by_cases short : surface.size < w * h * 3
      · simp only [short, if_true]
        rfl
      · have edge : (area.clip w h).y + (area.clip w h).height < 2 ^ 64 :=
          Nat.lt_of_le_of_lt under countable.height
        simp only [short, if_false, add_eq edge, Option.bind_some, Nat.add_sub_cancel_left,
          paintRows_eq countable counted (Nat.le_of_not_lt short) inside under]
        rfl

end Checked

end Chip8
