import Chip8.Proofs.Run

/-!
# Changes are marked

Whatever changes a pixel also takes it into the area to be shown, and nothing but
showing the picture takes a pixel out.  The relation is a preorder, so a cycle has it
because each of its instructions does.
-/

set_option autoImplicit false

namespace Chip8

theorem Sprite.contains_area {sprite : Sprite} {w h px py : Nat}
    (covered : sprite.covers px py = true) (inside : px < w) (below : py < h) :
    (sprite.area w h).contains px py = true := by
  obtain ⟨⟨beside, narrow⟩, under, row, here, set⟩ := covers_iff.mp covered
  have listed : py - sprite.top < sprite.rows.length := (List.getElem?_eq_some_iff.mp here).1
  simp only [Rect.contains_iff, Rect.right, Rect.bottom, area]
  omega

namespace Framebuffer

variable {w h : Nat}

/-- Whether a pixel waits to be shown. -/
def marks (fb : Framebuffer w h) (x y : Nat) : Bool := fb.dirty.any fun area => area.contains x y

/-- The pixels of the display that are not marked afterwards were not marked before, and
are as they were. -/
def MarksChanges (before after : Framebuffer w h) : Prop :=
  ∀ x < w, ∀ y < h, after.marks x y = false →
    before.marks x y = false ∧ after.pixel x y = before.pixel x y

theorem MarksChanges.refl (fb : Framebuffer w h) : fb.MarksChanges fb := by
  intro x inside y below unmarked
  exact ⟨unmarked, rfl⟩

theorem MarksChanges.trans {first second third : Framebuffer w h}
    (early : first.MarksChanges second) (late : second.MarksChanges third) :
    first.MarksChanges third := by
  intro x inside y below unmarked
  obtain ⟨between, same⟩ := late x inside y below unmarked
  obtain ⟨before, still⟩ := early x inside y below between
  exact ⟨before, same.trans still⟩

/-- Marking takes in its area and lets nothing go. -/
theorem marks_invalidate {fb : Framebuffer w h} {area : Rect} {x y : Nat} (inside : x < w)
    (below : y < h) (marked : fb.marks x y = true ∨ area.contains x y = true) :
    (fb.invalidate area).marks x y = true := by
  have visible : (area.clip w h).contains x y = area.contains x y := by
    simp [Rect.contains_clip, inside, below]
  cases empty : (area.clip w h).isEmpty with
  | true =>
      have outside : area.contains x y = false := by
        rw [← visible, Rect.contains_of_isEmpty empty]
      rw [outside] at marked
      simpa [invalidate, empty] using marked
  | false =>
      simp only [invalidate, empty, Bool.false_eq_true, if_false]
      cases changed : fb.dirty with
      | none =>
          have fresh : fb.marks x y = false := by simp [marks, changed]
          rw [fresh, ← visible] at marked
          simpa [marks] using marked
      | some before =>
          have old : fb.marks x y = before.contains x y := by simp [marks, changed]
          rw [old, ← visible] at marked
          rcases marked with earlier | added
          · exact Rect.contains_union_left earlier
          · exact Rect.contains_union_right added

theorem invalidate_marksChanges (fb : Framebuffer w h) (area : Rect) :
    fb.MarksChanges (fb.invalidate area) := by
  intro x inside y below unmarked
  refine ⟨?_, by simp [pixel]⟩
  rw [← Bool.not_eq_true] at unmarked ⊢
  intro marked
  exact unmarked (marks_invalidate inside below (.inl marked))

theorem marks_clear {fb : Framebuffer w h} {x y : Nat} (inside : x < w) (below : y < h) :
    fb.clear.marks x y = true := by
  apply marks_invalidate inside below
  right
  simp [bounds, Rect.contains_iff, Rect.right, Rect.bottom, inside, below]

theorem clear_marksChanges (fb : Framebuffer w h) : fb.MarksChanges fb.clear := by
  intro x inside y below unmarked
  rw [marks_clear inside below] at unmarked
  cases unmarked

theorem draw_marksChanges (fb : Framebuffer w h) (sprite : Sprite) :
    fb.MarksChanges (fb.draw sprite) := by
  intro x inside y below unmarked
  have bare : sprite.covers x y = false := by
    rw [← Bool.not_eq_true] at unmarked ⊢
    intro covered
    have taken := Sprite.contains_area covered inside below
    exact unmarked (marks_invalidate inside below (.inr taken))
  -- The flips do not mark, so what was marked before the sprite is marked before its area is.
  obtain ⟨before, _⟩ := invalidate_marksChanges _ _ x inside y below unmarked
  constructor
  · rwa [marks, dirty_flipAll] at before
  · rw [pixel_draw sprite fb inside below, bare]
    rfl

end Framebuffer

namespace Machine

variable {w h : Nat}

theorem screenAfter_marksChanges (m : Machine w h) (instruction : Instruction) :
    m.screen.MarksChanges (m.screenAfter instruction) := by
  cases instruction with
  | clearScreen => exact m.screen.clear_marksChanges
  | draw x y rows =>
      simp only [screenAfter]
      split
      · exact .refl _
      · exact m.screen.draw_marksChanges _
  | _ => exact .refl _

theorem cycle_marksChanges (keys : KeySet) (m : Machine w h) :
    m.screen.MarksChanges (m.cycle keys).1.screen := by
  rw [(m.cycle_effect keys).screen]
  cases executed : m.executes? with
  | none => exact .refl _
  | some instruction => exact m.advance.screenAfter_marksChanges instruction

theorem load_marksChanges (program : List UInt8) (m : Machine w h) :
    m.screen.MarksChanges (m.load program).1.screen := m.screen.clear_marksChanges

end Machine

end Chip8
