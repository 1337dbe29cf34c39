import Chip8.Framebuffer

/-!
# The smallest rectangle around what was marked

A host tells a picture which of its areas have changed and when they have been shown.  The
changed area is at all times the smallest rectangle around those pixels of the display that lie
in an area told since the picture was last shown.  So nothing but these pixels counts: not the
order of the areas, not how often one was told, and not what of them lies off the display.
-/

set_option autoImplicit false

namespace Chip8

namespace Rect

structure Within (inner outer : Rect) : Prop where
  left : outer.x ≤ inner.x
  right : inner.right ≤ outer.right
  top : outer.y ≤ inner.y
  bottom : inner.bottom ≤ outer.bottom

theorem Within.antisymm {a b : Rect} (forth : a.Within b) (back : b.Within a) : a = b := by
  have left : a.x = b.x := Nat.le_antisymm back.left forth.left
  have top : a.y = b.y := Nat.le_antisymm back.top forth.top
  have right : a.right = b.right := Nat.le_antisymm forth.right back.right
  have bottom : a.bottom = b.bottom := Nat.le_antisymm forth.bottom back.bottom
  cases a
  cases b
  simp only [Rect.right, Rect.bottom, Rect.mk.injEq] at left top right bottom ⊢
  omega

/-- The smallest rectangle around some points. -/
structure Bounds (box : Rect) (points : Nat → Nat → Prop) : Prop where
  around : ∀ px py, points px py → box.contains px py = true
  least : ∀ other : Rect, (∀ px py, points px py → other.contains px py = true) →
    box.Within other

theorem Bounds.unique {a b : Rect} {points : Nat → Nat → Prop} (first : a.Bounds points)
    (second : b.Bounds points) : a = b :=
  (first.least b second.around).antisymm (second.least a first.around)

theorem Bounds.congr {box : Rect} {points others : Nat → Nat → Prop} (bounds : box.Bounds points)
    (same : ∀ px py, others px py ↔ points px py) : box.Bounds others := by
  have equal : others = points := by
    funext px py
    exact propext (same px py)
  exact equal ▸ bounds

/-- No rectangle is the smallest around nothing: one farther to the right would do as well. -/
theorem Bounds.exists_point {box : Rect} {points : Nat → Nat → Prop} (bounds : box.Bounds points) :
    ∃ px py, points px py := by
  apply Classical.byContradiction
  intro nothing
  have farther := bounds.least ⟨box.x + 1, 0, 0, 0⟩
    (fun px py there => absurd ⟨px, py, there⟩ nothing)
  exact absurd farther.left (Nat.not_succ_le_self box.x)

theorem Bounds.isEmpty_eq_false {box : Rect} {points : Nat → Nat → Prop}
    (bounds : box.Bounds points) : box.isEmpty = false := by
  obtain ⟨px, py, there⟩ := bounds.exists_point
  apply Bool.eq_false_iff.mpr
  intro empty
  have outside := contains_of_isEmpty empty px py
  rw [bounds.around px py there] at outside
  cases outside

/-- A rectangle with points is the smallest around them: any other reaches to two corners. -/
theorem bounds_self {box : Rect} (some : box.isEmpty = false) :
    box.Bounds fun px py => box.contains px py = true := by
  refine ⟨fun _ _ inside => inside, ?_⟩
  intro other around
  have near := contains_iff.mp (around box.x box.y (contains_corner some))
  simp only [isEmpty, Bool.or_eq_false_iff, beq_eq_false_iff_ne] at some
  have corner : box.contains (box.right - 1) (box.bottom - 1) = true := by
    simp only [contains_iff, right, bottom]
    omega
  have far := contains_iff.mp (around _ _ corner)
  constructor <;>
  · simp only [right, bottom] at near far ⊢
    omega

theorem Bounds.union {a b : Rect} {points others : Nat → Nat → Prop} (first : a.Bounds points)
    (second : b.Bounds others) : (a.union b).Bounds fun px py => points px py ∨ others px py := by
  have someA := first.isEmpty_eq_false
  have someB := second.isEmpty_eq_false
  constructor
  · intro px py there
    rcases there with inFirst | inSecond
    · exact contains_union_left (first.around px py inFirst)
    · exact contains_union_right (second.around px py inSecond)
  · intro other around
    have fromA := first.least other fun px py inFirst => around px py (.inl inFirst)
    have fromB := second.least other fun px py inSecond => around px py (.inr inSecond)
    constructor
    · rw [union_of_some someA someB]
      exact Nat.le_min.mpr ⟨fromA.left, fromB.left⟩
    · rw [right_union someA someB]
      exact Nat.max_le.mpr ⟨fromA.right, fromB.right⟩
    · rw [union_of_some someA someB]
      exact Nat.le_min.mpr ⟨fromA.top, fromB.top⟩
    · rw [bottom_union someA someB]
      exact Nat.max_le.mpr ⟨fromA.bottom, fromB.bottom⟩

end Rect

namespace Framebuffer

variable {w h : Nat}

/-! ## What a host tells a picture -/

inductive Notice where
  | changed (area : Rect)
  | allChanged
  | shown
  deriving DecidableEq

def heed (fb : Framebuffer w h) : Notice → Framebuffer w h
  | .changed area => fb.invalidate area
  | .allChanged => fb.invalidateAll
  | .shown => fb.validate

def heedAll (fb : Framebuffer w h) : List Notice → Framebuffer w h
  | [] => fb
  | notice :: later => (fb.heed notice).heedAll later

/-- The areas told since the picture was last shown, from those told before a notice. -/
def toldAfter (w h : Nat) (told : List Rect) : Notice → List Rect
  | .changed area => area :: told
  | .allChanged => ⟨0, 0, w, h⟩ :: told
  | .shown => []

def toldIn (w h : Nat) (told : List Rect) : List Notice → List Rect
  | [] => told
  | notice :: later => toldIn w h (toldAfter w h told notice) later

def Covered (w h : Nat) (areas : List Rect) (px py : Nat) : Prop :=
  (px < w ∧ py < h) ∧ ∃ area ∈ areas, area.contains px py = true

theorem covered_cons {area : Rect} {areas : List Rect} {px py : Nat} :
    Covered w h (area :: areas) px py ↔
      Covered w h areas px py ∨ (area.clip w h).contains px py = true := by
  simp only [Covered, Rect.contains_clip, Bool.and_eq_true, decide_eq_true_eq]
  grind

theorem mem_toldIn {area : Rect} (later : List Notice) {told : List Rect} (there : area ∈ told)
    (unshown : .shown ∉ later) : area ∈ toldIn w h told later := by
  induction later generalizing told with
  | nil => exact there
  | cons notice rest ih =>
      rw [List.mem_cons, not_or] at unshown
      refine ih ?_ unshown.2
      cases notice with
      | changed other => exact List.mem_cons_of_mem _ there
      | allChanged => exact List.mem_cons_of_mem _ there
      | shown => exact absurd rfl unshown.1

/-! ## The changed area encloses the marked pixels -/

/-- The changed area is the smallest rectangle around some points, and there is none if there
are no points. -/
def Encloses (fb : Framebuffer w h) (points : Nat → Nat → Prop) : Prop :=
  match fb.dirty with
  | some box => box.Bounds points
  | none => ∀ px py, ¬ points px py

theorem Encloses.of_some {fb : Framebuffer w h} {points : Nat → Nat → Prop} {box : Rect}
    (encloses : fb.Encloses points) (changed : fb.dirty = some box) : box.Bounds points := by
  rw [Encloses, changed] at encloses
  exact encloses

theorem Encloses.dirty_eq_none_iff {fb : Framebuffer w h} {points : Nat → Nat → Prop}
    (encloses : fb.Encloses points) : fb.dirty = none ↔ ∀ px py, ¬ points px py := by
  unfold Encloses at encloses
  split at encloses
  · rename_i box changed
    obtain ⟨px, py, there⟩ := encloses.exists_point
    simp only [changed, reduceCtorEq, false_iff]
    exact fun nothing => nothing px py there
  · rename_i clean
    exact ⟨fun _ => encloses, fun _ => clean⟩

/-- A smallest rectangle around the points that a changed area encloses is that area. -/
theorem Encloses.dirty_eq_some {fb : Framebuffer w h} {points : Nat → Nat → Prop} {box : Rect}
    (encloses : fb.Encloses points) (bounds : box.Bounds points) : fb.dirty = some box := by
  cases changed : fb.dirty with
  | none =>
      obtain ⟨px, py, there⟩ := bounds.exists_point
      exact absurd there (encloses.dirty_eq_none_iff.mp changed px py)
  | some other => rw [(encloses.of_some changed).unique bounds]

/-- A changed area is known by the points that it encloses. -/
theorem Encloses.dirty_eq {first second : Framebuffer w h} {points : Nat → Nat → Prop}
    (one : first.Encloses points) (other : second.Encloses points) : first.dirty = second.dirty := by
  cases changed : first.dirty with
  | none => exact (other.dirty_eq_none_iff.mpr (one.dirty_eq_none_iff.mp changed)).symm
  | some box => exact (other.dirty_eq_some (one.of_some changed)).symm

theorem Encloses.congr {fb : Framebuffer w h} {points others : Nat → Nat → Prop}
    (encloses : fb.Encloses points) (same : ∀ px py, others px py ↔ points px py) :
    fb.Encloses others := by
  have equal : others = points := by
    funext px py
    exact propext (same px py)
  exact equal ▸ encloses

theorem Encloses.invalidate {fb : Framebuffer w h} {points : Nat → Nat → Prop}
    (encloses : fb.Encloses points) (area : Rect) :
    (fb.invalidate area).Encloses fun px py =>
      points px py ∨ (area.clip w h).contains px py = true := by
  cases empty : (area.clip w h).isEmpty with
  | true =>
      have same : fb.invalidate area = fb := by simp [Framebuffer.invalidate, empty]
      rw [same]
      refine encloses.congr fun px py => ?_
      rw [Rect.contains_of_isEmpty empty]
      simp
  | false =>
      have visible := Rect.bounds_self empty
      cases changed : fb.dirty with
      | none =>
          have clean := encloses.dirty_eq_none_iff.mp changed
          rw [Encloses, dirty_invalidate, empty, changed]
          exact visible.congr fun px py => or_iff_right (clean px py)
      | some before =>
          rw [Encloses, dirty_invalidate, empty, changed]
          exact (encloses.of_some changed).union visible

theorem Encloses.heed {fb : Framebuffer w h} {told : List Rect}
    (encloses : fb.Encloses (Covered w h told)) (notice : Notice) :
    (fb.heed notice).Encloses (Covered w h (toldAfter w h told notice)) := by
  cases notice with
  | changed area => exact (encloses.invalidate area).congr fun _ _ => covered_cons
  | allChanged => exact (encloses.invalidate fb.bounds).congr fun _ _ => covered_cons
  | shown =>
      rintro px py ⟨_, area, there, _⟩
      exact List.not_mem_nil there

theorem Encloses.heedAll (notices : List Notice) {fb : Framebuffer w h} {told : List Rect}
    (encloses : fb.Encloses (Covered w h told)) :
    (fb.heedAll notices).Encloses (Covered w h (toldIn w h told notices)) := by
  induction notices generalizing fb told with
  | nil => exact encloses
  | cons notice later ih => exact ih (encloses.heed notice)

/-- The whole display encloses whatever it is told of together with other areas. -/
theorem bounds_display {areas : List Rect} (wide : 0 < w) (high : 0 < h)
    (told : ⟨0, 0, w, h⟩ ∈ areas) : Rect.Bounds ⟨0, 0, w, h⟩ (Covered w h areas) := by
  have some : Rect.isEmpty ⟨0, 0, w, h⟩ = false := by
    simp only [Rect.isEmpty, Bool.or_eq_false_iff, beq_eq_false_iff_ne]
    omega
  refine (Rect.bounds_self some).congr fun px py => ?_
  have display : Rect.contains ⟨0, 0, w, h⟩ px py = true ↔ px < w ∧ py < h := by
    simp [Rect.contains_iff, Rect.right, Rect.bottom]
  constructor
  · rintro ⟨onDisplay, _⟩
    exact display.mpr onDisplay
  · intro inside
    exact ⟨display.mp inside, _, told, inside⟩

/-- The changed area is none just if nothing that was told since the picture was last shown has
a pixel on the display; otherwise it is the smallest rectangle around all these pixels.  What
was told, and not in which order or how often, settles it, and of a display that has pixels all
is marked once it was told that all has changed. -/
theorem changed_area_exact (pixels : Vector UInt8 (w * h)) (notices : List Notice) :
    let fb : Framebuffer w h := heedAll ⟨pixels, none⟩ notices
    let told := toldIn w h [] notices
    (fb.dirty = none ↔ ∀ area ∈ told, ∀ x < w, ∀ y < h, area.contains x y = false) ∧
      (∀ box, fb.dirty = some box → box.Bounds (Covered w h told)) ∧
      (∀ others, (∀ area, area ∈ toldIn w h [] others ↔ area ∈ told) →
        (heedAll ⟨pixels, none⟩ others : Framebuffer w h).dirty = fb.dirty) ∧
      (0 < w → 0 < h → ∀ later, .shown ∉ later →
        ((fb.heed .allChanged).heedAll later).dirty = some ⟨0, 0, w, h⟩) := by
  intro fb told
  have fresh : Encloses (⟨pixels, none⟩ : Framebuffer w h) (Covered w h []) := by
    rintro px py ⟨_, area, there, _⟩
    exact List.not_mem_nil there
  have encloses : fb.Encloses (Covered w h told) := fresh.heedAll notices
  refine ⟨?_, ?_, ?_, ?_⟩
  · rw [encloses.dirty_eq_none_iff]
    constructor
    · intro bare area there x inside y below
      apply Bool.eq_false_iff.mpr
      intro contained
      exact bare x y ⟨⟨inside, below⟩, area, there, contained⟩
    · rintro outside x y ⟨⟨inside, below⟩, area, there, contained⟩
      rw [outside area there x inside y below] at contained
      cases contained
  · intro box changed
    exact encloses.of_some changed
  · intro others same
    have alike : ∀ px py, Covered w h told px py ↔ Covered w h (toldIn w h [] others) px py := by
      intro px py
      simp only [Covered, same, told]
    exact ((fresh.heedAll others).congr alike).dirty_eq encloses
  · intro wide high later unshown
    have last := (encloses.heed .allChanged).heedAll later
    have stillTold : ⟨0, 0, w, h⟩ ∈ toldIn w h (⟨0, 0, w, h⟩ :: told) later :=
      mem_toldIn later List.mem_cons_self unshown
    exact last.dirty_eq_some (bounds_display wide high stillTold)

/-- Areas that stick out at the right and below, one that only touches the display from outside
and one without pixels; then the same ones in another order and one of them twice. -/
theorem changed_area_exact_of_edges :
    let fresh : Framebuffer 8 4 := blank
    let told : List Rect := [⟨8, 0, 2, 4⟩, ⟨5, 3, 1, 7⟩, ⟨2, 2, 0, 5⟩, ⟨6, 1, 9, 1⟩]
    let notices : List Notice := [.changed ⟨0, 0, 8, 4⟩, .shown, .changed ⟨6, 1, 9, 1⟩,
      .changed ⟨2, 2, 0, 5⟩, .changed ⟨5, 3, 1, 7⟩, .changed ⟨8, 0, 2, 4⟩]
    let others : List Notice := [.changed ⟨5, 3, 1, 7⟩, .changed ⟨8, 0, 2, 4⟩,
      .changed ⟨6, 1, 9, 1⟩, .changed ⟨2, 2, 0, 5⟩, .changed ⟨6, 1, 9, 1⟩]
    (fresh.heedAll notices).dirty = some ⟨5, 1, 3, 3⟩ ∧
      Rect.Bounds ⟨5, 1, 3, 3⟩ (Covered 8 4 told) ∧
      (∀ area, area ∈ toldIn 8 4 [] others ↔ area ∈ toldIn 8 4 [] notices) ∧
      (fresh.heedAll others).dirty = some ⟨5, 1, 3, 3⟩ ∧
      (((fresh.heedAll notices).heed .allChanged).heedAll [.changed ⟨8, 0, 2, 4⟩]).dirty =
        some ⟨0, 0, 8, 4⟩ := by
  intro fresh told notices others
  have changed : (fresh.heedAll notices).dirty = some ⟨5, 1, 3, 3⟩ := by decide +kernel
  have alike : ∀ area, area ∈ toldIn 8 4 [] others ↔ area ∈ toldIn 8 4 [] notices := by
    intro area
    simp only [toldIn, toldAfter, others, notices, List.mem_cons, List.not_mem_nil]
    grind
  have unshown : .shown ∉ [Notice.changed ⟨8, 0, 2, 4⟩] := by decide
  obtain ⟨_, bounds, same, whole⟩ :=
    changed_area_exact (w := 8) (h := 4) (Vector.replicate (8 * 4) 0) notices
  refine ⟨changed, bounds _ changed, alike, ?_, whole (by decide) (by decide) _ unshown⟩
  exact (same others alike).trans changed

end Framebuffer

end Chip8
