import Chip8.Proofs.BoundingBox
import Chip8.Proofs.Checked.Picture

/-!
# The algebra of rectangles

Rectangles as sets of points.  The part of one on a surface is where the two meet, and it stays on
the surface even if nothing is left of it.  The union of two is the smallest rectangle around
both: it can be formed in any grouping, and in any order as long as one of the two has a point.
On rectangles whose edges can be counted in a word all of this is computed without a fault.
-/

set_option autoImplicit false

namespace Chip8.Rect

instance : HasSubset Rect :=
  ⟨fun inner outer => ∀ px py, inner.contains px py = true → outer.contains px py = true⟩

theorem isEmpty_iff_no_points {r : Rect} :
    r.isEmpty = true ↔ ∀ px py, r.contains px py = false := by
  constructor
  · exact contains_of_isEmpty
  · intro nowhere
    apply Classical.byContradiction
    intro some
    have corner := contains_corner (Bool.not_eq_true _ ▸ some)
    rw [nowhere] at corner
    cases corner

theorem Within.subset {inner outer : Rect} (within : inner.Within outer) : inner ⊆ outer := by
  intro px py inside
  rw [contains_iff] at inside ⊢
  obtain ⟨⟨left, right⟩, top, bottom⟩ := inside
  exact ⟨⟨Nat.le_trans within.left left, Nat.lt_of_lt_of_le right within.right⟩,
    Nat.le_trans within.top top, Nat.lt_of_lt_of_le bottom within.bottom⟩

/-! ## Parts of a rectangle -/

/-- What there is of a rectangle on a surface, and that it stays there. -/
structure IsClip (r : Rect) (width height : Nat) (part : Rect) : Prop where
  contains_iff : ∀ px py, part.contains px py = true ↔
    r.contains px py = true ∧ px < width ∧ py < height
  x_le : part.x ≤ width
  y_le : part.y ≤ height
  right_le : part.right ≤ width
  bottom_le : part.bottom ≤ height

theorem isClip_clip (r : Rect) (width height : Nat) :
    r.IsClip width height (r.clip width height) where
  contains_iff _ _ := contains_clip_iff
  x_le := Nat.min_le_right r.x width
  y_le := Nat.min_le_right r.y height
  right_le := (clip_within width height r).1
  bottom_le := (clip_within width height r).2

theorem right_clip (r : Rect) (width height : Nat) :
    (r.clip width height).right = min r.right width := by
  simp only [clip, right]
  omega

theorem bottom_clip (r : Rect) (width height : Nat) :
    (r.clip width height).bottom = min r.bottom height := by
  simp only [clip, bottom]
  omega

theorem clip_of_within {r : Rect} {width height : Nat} (right : r.right ≤ width)
    (bottom : r.bottom ≤ height) : r.clip width height = r := by
  have left : r.x ≤ width := Nat.le_trans (Nat.le_add_right _ _) right
  have top : r.y ≤ height := Nat.le_trans (Nat.le_add_right _ _) bottom
  rw [clip, Nat.min_eq_left left, Nat.min_eq_left top, Nat.min_eq_left right,
    Nat.min_eq_left bottom, Rect.right, Rect.bottom, Nat.add_sub_cancel_left,
    Nat.add_sub_cancel_left]

theorem clip_clip (r : Rect) (width height : Nat) :
    (r.clip width height).clip width height = r.clip width height :=
  clip_of_within (clip_within width height r).1 (clip_within width height r).2

theorem clip_mono {inner outer : Rect} (inside : inner ⊆ outer) (width height : Nat) :
    inner.clip width height ⊆ outer.clip width height := by
  intro px py visible
  rw [contains_clip_iff] at visible ⊢
  exact ⟨inside px py visible.1, visible.2⟩

/-! ## Rectangles around others -/

/-- The smallest rectangle around two: no point of it is too many, and no edge is too far out
unless both are empty. -/
structure IsUnion (a b hull : Rect) : Prop where
  left : a ⊆ hull
  right : b ⊆ hull
  least : ∀ other, a ⊆ other → b ⊆ other → hull ⊆ other
  within : a.isEmpty = false ∨ b.isEmpty = false →
    ∀ other, a ⊆ other → b ⊆ other → hull.Within other
  isEmpty_iff : hull.isEmpty = true ↔ a.isEmpty = true ∧ b.isEmpty = true

theorem bounds_union {a b : Rect} (some : a.isEmpty = false ∨ b.isEmpty = false) :
    (a.union b).Bounds fun px py => a.contains px py = true ∨ b.contains px py = true := by
  cases emptyA : a.isEmpty with
  | true =>
      have someB : b.isEmpty = false := some.resolve_left (by simp [emptyA])
      rw [union_of_isEmpty emptyA]
      apply (bounds_self someB).congr
      simp [contains_of_isEmpty emptyA]
  | false =>
      cases emptyB : b.isEmpty with
      | true =>
          rw [union_of_isEmpty_right emptyA emptyB]
          apply (bounds_self emptyA).congr
          simp [contains_of_isEmpty emptyB]
      | false => exact (bounds_self emptyA).union (bounds_self emptyB)

theorem isEmpty_union_iff {a b : Rect} :
    (a.union b).isEmpty = true ↔ a.isEmpty = true ∧ b.isEmpty = true := by
  cases emptyA : a.isEmpty with
  | true => rw [union_of_isEmpty emptyA, and_iff_right rfl]
  | false => simp [isEmpty_union emptyA]

theorem isUnion_union (a b : Rect) : IsUnion a b (a.union b) := by
  have within : a.isEmpty = false ∨ b.isEmpty = false →
      ∀ other, a ⊆ other → b ⊆ other → (a.union b).Within other := by
    intro some other fromA fromB
    apply (bounds_union some).least other
    rintro px py (inA | inB)
    · exact fromA px py inA
    · exact fromB px py inB
  refine ⟨fun _ _ => contains_union_left, fun _ _ => contains_union_right, ?_, within,
    isEmpty_union_iff⟩
  intro other fromA fromB
  by_cases some : a.isEmpty = false ∨ b.isEmpty = false
  · exact (within some other fromA fromB).subset
  · have empty : a.isEmpty = true ∧ b.isEmpty = true := by simpa using some
    intro px py inside
    rw [contains_of_isEmpty (isEmpty_union_iff.mpr empty)] at inside
    cases inside

theorem union_clip_subset (a b : Rect) (width height : Nat) :
    (a.clip width height).union (b.clip width height) ⊆ (a.union b).clip width height := by
  apply (isUnion_union _ _).least
  · exact clip_mono (isUnion_union a b).left width height
  · exact clip_mono (isUnion_union a b).right width height

/-! ## Edges in a word -/

structure Fits (r : Rect) : Prop where
  right : r.right < 2 ^ 64
  bottom : r.bottom < 2 ^ 64

theorem Fits.clip {r : Rect} (fits : r.Fits) (width height : Nat) : (r.clip width height).Fits := by
  constructor
  · rw [right_clip]
    exact Nat.lt_of_le_of_lt (Nat.min_le_left _ _) fits.right
  · rw [bottom_clip]
    exact Nat.lt_of_le_of_lt (Nat.min_le_left _ _) fits.bottom

theorem fits_iff {r : Rect} : r.Fits ↔ r.right ≤ 2 ^ 64 - 1 ∧ r.bottom ≤ 2 ^ 64 - 1 := by
  constructor
  · rintro ⟨right, bottom⟩
    exact ⟨Nat.le_pred_of_lt right, Nat.le_pred_of_lt bottom⟩
  · rintro ⟨right, bottom⟩
    exact ⟨Nat.lt_of_le_pred (by decide) right, Nat.lt_of_le_pred (by decide) bottom⟩

theorem Fits.union {a b : Rect} (first : a.Fits) (second : b.Fits) : (a.union b).Fits :=
  fits_iff.mpr (union_within (fits_iff.mp first) (fits_iff.mp second))

/-- The laws of clipping and joining rectangles whose edges can be counted in a word.  The checked
operations answer what the others do; a second clip and a regrouped union are answered alike. -/
theorem rectangle_algebra {a b c : Rect} (fitsA : a.Fits) (fitsB : b.Fits) (fitsC : c.Fits)
    (width height : Nat) :
    (Checked.clip width height a = some (a.clip width height) ∧
      a.IsClip width height (a.clip width height) ∧
      Checked.clip width height (a.clip width height) = some (a.clip width height)) ∧
    (Checked.union a b = some (a.union b) ∧ IsUnion a b (a.union b) ∧
      (a.isEmpty = true ↔ ∀ px py, a.contains px py = false)) ∧
    (Checked.union (a.union b) c = some (a.union (b.union c)) ∧
      Checked.union a (b.union c) = some (a.union (b.union c))) ∧
    (a.isEmpty = false ∨ b.isEmpty = false → a.union b = b.union a) ∧
    (a.isEmpty = true ∧ b.isEmpty = true →
      (a.union b).isEmpty = true ∧ (b.union a).isEmpty = true) ∧
    (a.clip width height).union (b.clip width height) ⊆ (a.union b).clip width height := by
  have clips : ∀ {r : Rect}, r.Fits → Checked.clip width height r = some (r.clip width height) :=
    fun fits => Checked.clip_eq fits.right fits.bottom width height
  have joins : ∀ {r s : Rect}, r.Fits → s.Fits → Checked.union r s = some (r.union s) :=
    fun first second => Checked.union_eq first.right first.bottom second.right second.bottom
  refine ⟨⟨clips fitsA, isClip_clip a width height, ?_⟩,
    ⟨joins fitsA fitsB, isUnion_union a b, isEmpty_iff_no_points⟩, ⟨?_, ?_⟩, union_comm, ?_,
    union_clip_subset a b width height⟩
  · rw [clips (fitsA.clip width height), clip_clip]
  · rw [joins (fitsA.union fitsB) fitsC, union_assoc]
  · exact joins fitsA (fitsB.union fitsC)
  · intro empty
    exact ⟨isEmpty_union_iff.mpr empty, isEmpty_union_iff.mpr empty.symm⟩

/-- An empty rectangle far off, one that leaves the surface, and one that begins outside of it. -/
theorem rectangle_algebra_off_surface :
    let a : Rect := ⟨90, 7, 0, 3⟩
    let b : Rect := ⟨60, 30, 10, 10⟩
    let c : Rect := ⟨70, 0, 5, 5⟩
    Checked.clip 64 32 a = some ⟨64, 7, 0, 3⟩ ∧ Checked.union a b = some b ∧ b.union a = b ∧
      Checked.union (a.union b) c = some ⟨60, 0, 15, 40⟩ ∧
      (b.clip 64 32).union (c.clip 64 32) ⊆ (b.union c).clip 64 32 := by
  intro a b c
  have fitsA : a.Fits := ⟨by decide, by decide⟩
  have fitsB : b.Fits := ⟨by decide, by decide⟩
  have fitsC : c.Fits := ⟨by decide, by decide⟩
  obtain ⟨⟨clipped, _⟩, ⟨joined, _⟩, ⟨grouped, _⟩, swapped, _⟩ :=
    rectangle_algebra fitsA fitsB fitsC 64 32
  obtain ⟨_, _, _, _, _, part⟩ := rectangle_algebra fitsB fitsC fitsA 64 32
  exact ⟨clipped, joined, (swapped (.inr rfl)).symm, grouped, part⟩

end Chip8.Rect
