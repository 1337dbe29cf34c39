import Chip8.Rect

/-!
# The framebuffer

A monochrome picture of `w` by `h` pixels, one byte a pixel in row-major order,
together with the area that has changed since the picture was last shown.  A pixel
is lit when its byte is not zero.  The changed area is one rectangle on the
display: marking more of the display widens it, showing the picture forgets it.
-/

set_option autoImplicit false

namespace Chip8

structure Framebuffer (w h : Nat) where
  pixels : Vector UInt8 (w * h)
  dirty : Option Rect
  deriving DecidableEq

namespace Framebuffer

variable {w h : Nat}

def blank : Framebuffer w h := ⟨Vector.replicate (w * h) 0, none⟩

/-- The byte of the pixel in column `x` and row `y`, dark past the end. -/
def pixel (fb : Framebuffer w h) (x y : Nat) : UInt8 := fb.pixels[y * w + x]?.getD 0

def lit (fb : Framebuffer w h) : Nat := fb.pixels.countP (· != 0)

/-- Whether the pixel at `y * w + x` is lit, if there is one.  The column is not held
against the width: a column past the right edge counts on into the rows below. -/
def isLit? (fb : Framebuffer w h) (x y : Nat) : Option Bool := fb.pixels[y * w + x]?.map (· != 0)

/-! ## The changed area -/

def bounds (_ : Framebuffer w h) : Rect := ⟨0, 0, w, h⟩

/-- Widen the changed area to take in the part of `area` that is on the display. -/
def invalidate (area : Rect) (fb : Framebuffer w h) : Framebuffer w h :=
  let visible := area.clip w h
  if visible.isEmpty then fb
  else
    { fb with
      dirty := match fb.dirty with
        | some changed => some (changed.union visible)
        | none => some visible }

def invalidateAll (fb : Framebuffer w h) : Framebuffer w h := fb.invalidate fb.bounds

def validate (fb : Framebuffer w h) : Framebuffer w h := { fb with dirty := none }

/-! ## Drawing -/

def clear (fb : Framebuffer w h) : Framebuffer w h :=
  { fb with pixels := Vector.replicate (w * h) 0 }.invalidateAll

/-- Invert the byte of one pixel; nothing happens past the last pixel. -/
def flip (fb : Framebuffer w h) (x y : Nat) : Framebuffer w h :=
  if inside : y * w + x < w * h then
    { fb with pixels := fb.pixels.set (y * w + x) (fb.pixels[y * w + x] ^^^ 0xFF) }
  else
    fb

/-! ## Rows, for a host that reads or writes the picture itself -/

/-- Whether row `row` exists and has a column `offset`, its right edge included. -/
def HasSpan (_ : Framebuffer w h) (row offset : Nat) : Prop := offset ≤ w ∧ (row + 1) * w ≤ w * h

instance (fb : Framebuffer w h) (row offset : Nat) : Decidable (fb.HasSpan row offset) :=
  inferInstanceAs (Decidable (_ ∧ _))

def line? (fb : Framebuffer w h) (row offset : Nat) : Option (List UInt8) :=
  if fb.HasSpan row offset then
    some ((List.range (w - offset)).map fun column => fb.pixel (offset + column) row)
  else
    none

/-- Replace the bytes from pixel number `start` on. -/
def overwrite (start : Nat) : List UInt8 → Framebuffer w h → Framebuffer w h
  | [], fb => fb
  | byte :: rest, fb =>
      overwrite (start + 1) rest { fb with pixels := fb.pixels.setIfInBounds start byte }

/-- Write bytes over a row from column `offset` on, if the row has room for all. -/
def write? (row offset : Nat) (bytes : List UInt8) (fb : Framebuffer w h) :
    Option (Framebuffer w h) :=
  if fb.HasSpan row offset ∧ bytes.length ≤ w - offset then
    some (fb.overwrite (row * w + offset) bytes)
  else
    none

def fill? (row offset : Nat) (byte : UInt8) (fb : Framebuffer w h) : Option (Framebuffer w h) :=
  fb.write? row offset (List.replicate (w - offset) byte)

/-! ## What the operations do to single pixels -/

theorem place_inj {x y px py : Nat} (inside : x < w) (within : px < w) :
    y * w + x = py * w + px ↔ x = px ∧ y = py := by
  constructor
  · intro same
    have column : x = px := by
      have := congrArg (· % w) same
      simpa [Nat.add_comm _ x, Nat.add_comm _ px, Nat.mod_eq_of_lt inside,
        Nat.mod_eq_of_lt within] using this
    subst column
    exact ⟨rfl, Nat.eq_of_mul_eq_mul_right (by omega) (Nat.add_right_cancel same)⟩
  · rintro ⟨rfl, rfl⟩
    rfl

theorem place_lt {x y : Nat} (inside : x < w) (below : y < h) : y * w + x < w * h := by
  have rows : (y + 1) * w ≤ h * w := Nat.mul_le_mul_right w below
  rw [Nat.mul_comm w h]
  rw [Nat.add_mul] at rows
  omega

theorem pixel_flip {x y px py : Nat} (fb : Framebuffer w h) (inside : x < w) (below : y < h)
    (within : px < w) :
    (fb.flip x y).pixel px py =
      if x = px ∧ y = py then fb.pixel px py ^^^ 0xFF else fb.pixel px py := by
  simp only [flip, place_lt inside below, dite_true, pixel, Vector.getElem?_set,
    place_inj inside within]
  by_cases same : x = px ∧ y = py
  · obtain ⟨rfl, rfl⟩ := same
    simp [place_lt inside below]
  · simp [same]

/-! ## What the operations leave alone -/

@[simp] theorem pixels_invalidate (area : Rect) (fb : Framebuffer w h) :
    (fb.invalidate area).pixels = fb.pixels := by
  simp only [invalidate]
  split <;> rfl

theorem dirty_invalidate (area : Rect) (fb : Framebuffer w h) :
    (fb.invalidate area).dirty =
      if (area.clip w h).isEmpty then fb.dirty
      else some (fb.dirty.elim (area.clip w h) (·.union (area.clip w h))) := by
  simp only [invalidate]
  split
  · rfl
  · cases fb.dirty <;> rfl

/-- The order of two areas makes no difference to what is marked. -/
theorem dirty_invalidate_comm (a b : Rect) (fb : Framebuffer w h) :
    ((fb.invalidate a).invalidate b).dirty = ((fb.invalidate b).invalidate a).dirty := by
  simp only [dirty_invalidate]
  cases emptyA : (a.clip w h).isEmpty with
  | true => simp
  | false =>
      cases emptyB : (b.clip w h).isEmpty with
      | true => simp
      | false =>
          cases fb.dirty with
          | none => simp [Rect.union_comm (.inl emptyA)]
          | some changed => simp [changed.union_right_comm (.inl emptyA)]

@[simp] theorem pixels_invalidateAll (fb : Framebuffer w h) :
    fb.invalidateAll.pixels = fb.pixels :=
  pixels_invalidate _ fb

@[simp] theorem pixels_clear (fb : Framebuffer w h) :
    fb.clear.pixels = Vector.replicate (w * h) 0 := by
  simp [clear]

@[simp] theorem dirty_flip (fb : Framebuffer w h) (x y : Nat) : (fb.flip x y).dirty = fb.dirty := by
  simp only [flip]
  split <;> rfl

end Framebuffer

end Chip8
