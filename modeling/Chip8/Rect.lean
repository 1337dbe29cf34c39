/-!
# Rectangles

Axis-parallel rectangles of pixels, given by their left upper corner and their
size.  As a set of points a rectangle is half open: the columns from `x` up to but
not including `right`, the rows from `y` up to but not including `bottom`.
-/

set_option autoImplicit false

namespace Chip8

structure Rect where
  x : Nat
  y : Nat
  width : Nat
  height : Nat
  deriving DecidableEq

namespace Rect

def zero : Rect := ⟨0, 0, 0, 0⟩

def right (r : Rect) : Nat := r.x + r.width

def bottom (r : Rect) : Nat := r.y + r.height

def isEmpty (r : Rect) : Bool := r.width == 0 || r.height == 0

/-- Whether the point in column `px` and row `py` belongs to the rectangle. -/
def contains (r : Rect) (px py : Nat) : Bool :=
  r.x ≤ px && px < r.right && r.y ≤ py && py < r.bottom

/-- The points of a rectangle, column and row, row by row. -/
def points (r : Rect) : List (Nat × Nat) :=
  (List.range r.height).flatMap fun row =>
    (List.range r.width).map fun column => (r.x + column, r.y + row)

/-- The smallest rectangle around both; an empty one adds nothing. -/
def union (a b : Rect) : Rect :=
  if a.isEmpty then b
  else if b.isEmpty then a
  else
    let x := min a.x b.x
    let y := min a.y b.y
    ⟨x, y, max a.right b.right - x, max a.bottom b.bottom - y⟩

/-- The part of a rectangle on a surface of the given size. -/
def clip (width height : Nat) (r : Rect) : Rect :=
  let x := min r.x width
  let y := min r.y height
  ⟨x, y, min r.right width - x, min r.bottom height - y⟩

theorem contains_clip (width height : Nat) (r : Rect) (px py : Nat) :
    (r.clip width height).contains px py =
      (r.contains px py && decide (px < width) && decide (py < height)) := by
  simp only [contains, clip, right, bottom]
  grind

theorem contains_clip_iff {width height : Nat} {r : Rect} {px py : Nat} :
    (r.clip width height).contains px py = true ↔
      r.contains px py = true ∧ px < width ∧ py < height := by
  simp only [contains_clip, Bool.and_eq_true, decide_eq_true_eq, and_assoc]

/-- What is left of a rectangle reaches no farther than the surface, even if it is empty. -/
theorem clip_within (width height : Nat) (r : Rect) :
    (r.clip width height).right ≤ width ∧ (r.clip width height).bottom ≤ height := by
  simp only [clip, right, bottom]
  omega

theorem contains_iff {r : Rect} {px py : Nat} :
    r.contains px py = true ↔ (r.x ≤ px ∧ px < r.right) ∧ r.y ≤ py ∧ py < r.bottom := by
  simp only [contains, Bool.and_eq_true, decide_eq_true_eq, and_assoc]

theorem mem_points {r : Rect} {px py : Nat} : (px, py) ∈ r.points ↔ r.contains px py = true := by
  simp only [points, contains_iff, right, bottom, List.mem_flatMap, List.mem_map, List.mem_range,
    Prod.mk.injEq]
  constructor
  · rintro ⟨row, below, column, beside, rfl, rfl⟩
    omega
  · rintro ⟨⟨left, beside⟩, top, below⟩
    exact ⟨py - r.y, by omega, px - r.x, by omega, by omega, by omega⟩

theorem contains_of_isEmpty {r : Rect} (empty : r.isEmpty = true) (px py : Nat) :
    r.contains px py = false := by
  simp only [isEmpty, Bool.or_eq_true, beq_iff_eq] at empty
  simp only [contains, right, bottom]
  grind

theorem contains_union_left {a b : Rect} {px py : Nat} (inside : a.contains px py = true) :
    (a.union b).contains px py = true := by
  have full : a.isEmpty = false := by
    refine Bool.eq_false_iff.mpr fun empty => ?_
    simp [contains_of_isEmpty empty] at inside
  rw [contains_iff] at inside
  simp only [union, full, Bool.false_eq_true, if_false]
  split
  · exact contains_iff.mpr inside
  · simp only [contains_iff, right, bottom] at inside ⊢
    omega

theorem contains_union_right {a b : Rect} {px py : Nat} (inside : b.contains px py = true) :
    (a.union b).contains px py = true := by
  have full : b.isEmpty = false := by
    refine Bool.eq_false_iff.mpr fun empty => ?_
    simp [contains_of_isEmpty empty] at inside
  rw [contains_iff] at inside
  simp only [union, full, Bool.false_eq_true, if_false]
  split
  · exact contains_iff.mpr inside
  · simp only [contains_iff, right, bottom] at inside ⊢
    omega

theorem contains_corner {r : Rect} (some : r.isEmpty = false) : r.contains r.x r.y = true := by
  simp only [isEmpty, Bool.or_eq_false_iff, beq_eq_false_iff_ne] at some
  have wide : 0 < r.width := Nat.pos_of_ne_zero some.1
  have high : 0 < r.height := Nat.pos_of_ne_zero some.2
  simp [contains, right, bottom, wide, high]

/-! ## The laws of the union -/

theorem union_of_isEmpty {a : Rect} (empty : a.isEmpty = true) (b : Rect) : a.union b = b :=
  if_pos empty

theorem union_of_isEmpty_right {a b : Rect} (some : a.isEmpty = false)
    (empty : b.isEmpty = true) : a.union b = a := by
  simp only [union, some, empty, Bool.false_eq_true, if_false, if_true]

theorem union_of_some {a b : Rect} (someA : a.isEmpty = false) (someB : b.isEmpty = false) :
    a.union b =
      ⟨min a.x b.x, min a.y b.y, max a.right b.right - min a.x b.x,
        max a.bottom b.bottom - min a.y b.y⟩ := by
  simp only [union, someA, someB, Bool.false_eq_true, if_false]

theorem right_union {a b : Rect} (someA : a.isEmpty = false) (someB : b.isEmpty = false) :
    (a.union b).right = max a.right b.right := by
  rw [union_of_some someA someB]
  simp only [right]
  omega

theorem bottom_union {a b : Rect} (someA : a.isEmpty = false) (someB : b.isEmpty = false) :
    (a.union b).bottom = max a.bottom b.bottom := by
  rw [union_of_some someA someB]
  simp only [bottom]
  omega

theorem isEmpty_union {a b : Rect} (some : a.isEmpty = false) :
    (a.union b).isEmpty = false := by
  simp only [union, some, Bool.false_eq_true, if_false]
  split
  · exact some
  · simp only [isEmpty, right, bottom, Bool.or_eq_false_iff, beq_eq_false_iff_ne] at some ⊢
    omega

/-- Two rectangles without points are the exception: the first of them is forgotten. -/
theorem union_comm {a b : Rect} (some : a.isEmpty = false ∨ b.isEmpty = false) :
    a.union b = b.union a := by
  cases emptyA : a.isEmpty with
  | true =>
      have someB : b.isEmpty = false := some.resolve_left (by simp [emptyA])
      rw [union_of_isEmpty emptyA, union_of_isEmpty_right someB emptyA]
  | false =>
      cases emptyB : b.isEmpty with
      | true => rw [union_of_isEmpty emptyB, union_of_isEmpty_right emptyA emptyB]
      | false =>
          rw [union_of_some emptyA emptyB, union_of_some emptyB emptyA, Nat.min_comm a.x,
            Nat.min_comm a.y, Nat.max_comm a.right, Nat.max_comm a.bottom]

theorem union_assoc (a b c : Rect) : (a.union b).union c = a.union (b.union c) := by
  cases emptyA : a.isEmpty with
  | true => rw [union_of_isEmpty emptyA, union_of_isEmpty emptyA]
  | false =>
      cases emptyB : b.isEmpty with
      | true => rw [union_of_isEmpty_right emptyA emptyB, union_of_isEmpty emptyB]
      | false =>
          have someAB : (a.union b).isEmpty = false := isEmpty_union emptyA
          cases emptyC : c.isEmpty with
          | true =>
              rw [union_of_isEmpty_right someAB emptyC, union_of_isEmpty_right emptyB emptyC]
          | false =>
              have someBC : (b.union c).isEmpty = false := isEmpty_union emptyB
              rw [union_of_some someAB emptyC, union_of_some emptyA someBC,
                right_union emptyA emptyB, bottom_union emptyA emptyB,
                right_union emptyB emptyC, bottom_union emptyB emptyC,
                union_of_some emptyA emptyB, union_of_some emptyB emptyC]
              simp only [Nat.min_assoc, Nat.max_assoc]

/-- What is taken in last may as well be taken in first, if it has points. -/
theorem union_right_comm (a : Rect) {b c : Rect}
    (some : b.isEmpty = false ∨ c.isEmpty = false) :
    (a.union b).union c = (a.union c).union b := by
  rw [union_assoc, union_comm some, ← union_assoc]

/-- Taking in all of a display leaves no more and no less, if nothing lay outside. -/
theorem union_display {area : Rect} {w h : Nat}
    (inside : area.right ≤ w ∧ area.bottom ≤ h) (wide : 0 < w) (high : 0 < h) :
    area.union ⟨0, 0, w, h⟩ = ⟨0, 0, w, h⟩ := by
  obtain ⟨within, under⟩ := inside
  have some : isEmpty ⟨0, 0, w, h⟩ = false := by
    simp only [isEmpty, Bool.or_eq_false_iff, beq_eq_false_iff_ne]
    omega
  simp only [union, some, Bool.false_eq_true, if_false]
  split
  · rfl
  · simp only [right, bottom, Rect.mk.injEq] at within under ⊢
    omega

end Rect

end Chip8
