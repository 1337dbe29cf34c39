import Chip8.Color
import Chip8.Framebuffer

/-!
# Surfaces

A surface is a row of color channels, three to a pixel, of the same width as the
picture it shows.  Painting an area of a picture writes the pixels of the area and
nothing else.  A picture can also be written as text, a line to a row.
-/

set_option autoImplicit false

namespace Chip8

structure Palette where
  on : Color := .phosphor
  off : Color := .darkGray
  deriving DecidableEq

def Palette.color (palette : Palette) (pixel : UInt8) : Color :=
  if pixel != 0 then palette.on else palette.off

abbrev Surface := Array UInt8

namespace Surface

def lengthFor (w h : Nat) : Nat := w * h * 3

def filled (pixels : Nat) (color : Color) : Surface :=
  Array.ofFn fun (k : Fin (pixels * 3)) => color.channels.getD (k % 3) 0

/-- Color one pixel; nothing happens past the end of the surface. -/
def put (pixel : Nat) (color : Color) (surface : Surface) : Surface :=
  ((surface.setIfInBounds (pixel * 3) color.red).setIfInBounds (pixel * 3 + 1)
    color.green).setIfInBounds (pixel * 3 + 2) color.blue

@[simp] theorem size_put (pixel : Nat) (color : Color) (surface : Surface) :
    (surface.put pixel color).size = surface.size := by
  simp [put]

end Surface

namespace Framebuffer

variable {w h : Nat}

/-- The area that painting `area` writes: its part on the display, or nothing on a
surface too short for the picture. -/
def paintedArea (_ : Framebuffer w h) (area : Rect) (surface : Surface) : Rect :=
  let visible := area.clip w h
  if visible.isEmpty || surface.size < Surface.lengthFor w h then .zero else visible

def paintPoints (palette : Palette) (fb : Framebuffer w h) :
    List (Nat × Nat) → Surface → Surface
  | [], surface => surface
  | (x, y) :: rest, surface =>
      paintPoints palette fb rest (surface.put (y * w + x) (palette.color (fb.pixel x y)))

def paint (palette : Palette) (area : Rect) (fb : Framebuffer w h) (surface : Surface) : Surface :=
  fb.paintPoints palette (fb.paintedArea area surface).points surface

/-- The picture as text, each row closed by a line feed. -/
def toText (on off : Char) (fb : Framebuffer w h) : String :=
  String.ofList <| (List.range h).flatMap fun row =>
    ((List.range w).map fun column => if fb.pixel column row != 0 then on else off) ++ ['\n']

@[simp] theorem size_paintPoints (palette : Palette) (fb : Framebuffer w h)
    (points : List (Nat × Nat)) (surface : Surface) :
    (fb.paintPoints palette points surface).size = surface.size := by
  induction points generalizing surface with
  | nil => rfl
  | cons point rest ih => rw [paintPoints, ih, Surface.size_put]

@[simp] theorem size_paint (palette : Palette) (area : Rect) (fb : Framebuffer w h)
    (surface : Surface) : (fb.paint palette area surface).size = surface.size :=
  size_paintPoints palette fb _ surface

end Framebuffer

end Chip8
