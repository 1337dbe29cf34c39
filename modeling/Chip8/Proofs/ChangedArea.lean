import Chip8.Proofs.Marking
import Chip8.Proofs.Painting
import Chip8.Proofs.Reset

/-!
# What the changed area tells

A host that shows only the changed area misses nothing: a pixel that is not as it was when
the picture was last shown lies in the area, and without an area the picture is the same.
No more is promised of the area than that; it may hold pixels that never changed, or changed
back.
-/

set_option autoImplicit false

namespace Chip8

namespace Framebuffer

variable {w h : Nat}

theorem MarksChanges.marks_of_ne {before after : Framebuffer w h}
    (marking : before.MarksChanges after) {x y : Nat} (inside : x < w) (below : y < h)
    (differs : after.pixel x y ≠ before.pixel x y) : after.marks x y = true := by
  rw [← Bool.not_eq_false]
  intro unmarked
  exact differs (marking x inside y below unmarked).2

theorem MarksChanges.pixels_eq {before after : Framebuffer w h}
    (marking : before.MarksChanges after) (clean : after.dirty = none) :
    after.pixels = before.pixels := by
  apply pixels_ext
  intro x inside y below
  exact (marking x inside y below (by simp [marks, clean])).2

end Framebuffer

namespace Machine

variable {w h : Nat}

theorem after_marksChanges (m : Machine w h) {action : Action} (unshown : action ≠ .validate) :
    m.screen.MarksChanges (m.after action).screen := by
  cases action with
  | load program => exact m.screen.clear_marksChanges
  | loadStream stream => exact m.screen.clear_marksChanges
  | cycle keys => exact cycle_marksChanges keys m
  | invalidate area => exact m.screen.invalidate_marksChanges area
  | validate => exact absurd rfl unshown

theorem afterAll_marksChanges (actions : List Action) (m : Machine w h)
    (unshown : .validate ∉ actions) : m.screen.MarksChanges (m.afterAll actions).screen := by
  induction actions generalizing m with
  | nil => exact .refl _
  | cons action later ih =>
      rw [List.mem_cons, not_or] at unshown
      have first := m.after_marksChanges (Ne.symm unshown.1)
      exact first.trans (ih (m.after action) unshown.2)

/-- The changed area, if there is one, always has pixels and lies on the display; and whatever
has happened since the picture was last shown, the area takes in every pixel that differs,
and without an area none does. -/
theorem changed_area_covers (config : Config) (history : List Interaction) :
    let m : Machine w h := (new config).through history
    (∀ area, m.screen.dirty = some area →
      (0 < area.width ∧ 0 < area.height) ∧ area.right ≤ w ∧ area.bottom ≤ h) ∧
      ∀ actions, .validate ∉ actions →
        let shown := m.after .validate
        let last := shown.afterAll actions
        (∀ x < w, ∀ y < h, last.screen.pixel x y ≠ shown.screen.pixel x y →
          ∃ area, last.screen.dirty = some area ∧ area.contains x y = true) ∧
          (last.screen.dirty = none → last.screen.pixels = shown.screen.pixels) := by
  intro m
  have visible : m.screen.MarksVisible := ((new_loadable config).through history).marks
  refine ⟨?_, ?_⟩
  · intro area changed
    have pixels := visible.pixels area changed
    simp only [Rect.isEmpty, Bool.or_eq_false_iff, beq_eq_false_iff_ne] at pixels
    obtain ⟨wide, high⟩ := pixels
    exact ⟨⟨Nat.pos_of_ne_zero wide, Nat.pos_of_ne_zero high⟩, visible.inside area changed⟩
  · intro actions unshown shown last
    have marking : shown.screen.MarksChanges last.screen :=
      shown.afterAll_marksChanges actions unshown
    refine ⟨?_, marking.pixels_eq⟩
    intro x inside y below differs
    have marked := marking.marks_of_ne inside below differs
    exact (Option.any_eq_true _ _).mp marked

/-- A sprite that the last word of memory draws is marked, although the cycle ends in a fault. -/
theorem changed_area_covers_fault :
    let m : Machine 8 4 := (new { memorySize := 0x202 }).through [.act (.load [0xD0, 0x05])]
    .validate ∉ [Action.cycle ∅] ∧
      ((m.after .validate).afterAll [.cycle ∅]).fault = some .outOfBounds ∧
      ((m.after .validate).afterAll [.cycle ∅]).screen.pixel 3 1 ≠
        (m.after .validate).screen.pixel 3 1 ∧
      ∃ area, ((m.after .validate).afterAll [.cycle ∅]).screen.dirty = some area ∧
        area.contains 3 1 = true := by
  intro m
  have unshown : .validate ∉ [Action.cycle ∅] := by decide
  have facts : ((m.after .validate).afterAll [.cycle ∅]).fault = some .outOfBounds ∧
      ((m.after .validate).afterAll [.cycle ∅]).screen.pixel 3 1 ≠
        (m.after .validate).screen.pixel 3 1 := by
    decide +kernel
  have covers : ∀ actions, .validate ∉ actions →
      (∀ x < 8, ∀ y < 4, ((m.after .validate).afterAll actions).screen.pixel x y ≠
          (m.after .validate).screen.pixel x y →
        ∃ area, ((m.after .validate).afterAll actions).screen.dirty = some area ∧
          area.contains x y = true) ∧ _ :=
    (changed_area_covers { memorySize := 0x202 } _).2
  have covered := (covers [.cycle ∅] unshown).1 3 (by decide) 1 (by decide) facts.2
  exact ⟨unshown, facts.1, facts.2, covered⟩

end Machine

end Chip8
