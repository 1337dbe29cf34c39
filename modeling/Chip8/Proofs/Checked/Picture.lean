import Chip8.Proofs.Checked.Parts
import Chip8.Sprite

/-!
# The checked picture

Clearing and drawing as loops over lines of pixels, the way a display is written to:
each line is a slice of the picture that must lie inside it, a sprite row goes onto a
line bit by bit, and a pixel that goes dark under it is remembered.  On a display whose
pixels can be counted in a word all of this is answered, also when there are no pixels.
-/

set_option autoImplicit false

namespace Chip8

structure Countable (w h : Nat) : Prop where
  width : w < 2 ^ 64
  height : h < 2 ^ 64
  pixels : w * h < 2 ^ 64

theorem Rect.union_within {a b : Rect} {width height : Nat}
    (first : a.right ≤ width ∧ a.bottom ≤ height) (second : b.right ≤ width ∧ b.bottom ≤ height) :
    (a.union b).right ≤ width ∧ (a.union b).bottom ≤ height := by
  unfold union
  split
  · exact second
  · split
    · exact first
    · simp only [right, bottom] at first second ⊢
      omega

namespace Framebuffer

variable {w h : Nat}

def MarksInside (fb : Framebuffer w h) : Prop :=
  ∀ area, fb.dirty = some area → area.right ≤ w ∧ area.bottom ≤ h

theorem invalidate_marksInside {fb : Framebuffer w h} (marks : fb.MarksInside) (area : Rect) :
    (fb.invalidate area).MarksInside := by
  intro after changed
  simp only [invalidate] at changed
  split at changed
  · exact marks after changed
  · have visible := Rect.clip_within w h area
    cases earlier : fb.dirty with
    | none =>
        simp only [earlier, Option.some.injEq] at changed
        exact changed ▸ visible
    | some before =>
        simp only [earlier, Option.some.injEq] at changed
        subst changed
        exact Rect.union_within (marks before earlier) visible

theorem clear_marksInside {fb : Framebuffer w h} (marks : fb.MarksInside) :
    fb.clear.MarksInside := by
  have dark : MarksInside { fb with pixels := Vector.replicate (w * h) 0 } := marks
  exact invalidate_marksInside dark fb.bounds

theorem draw_marksInside {fb : Framebuffer w h} (marks : fb.MarksInside) (sprite : Sprite) :
    (fb.draw sprite).MarksInside := by
  apply invalidate_marksInside
  intro area changed
  exact marks area (fb.dirty_flipAll _ ▸ changed)

end Framebuffer

namespace Checked

/-! ## Areas -/

def clip (width height : Nat) (r : Rect) : Option Rect := do
  let right ← add 64 r.x r.width
  let bottom ← add 64 r.y r.height
  let x := min r.x width
  let y := min r.y height
  return ⟨x, y, ← sub (min right width) x, ← sub (min bottom height) y⟩

def union (a b : Rect) : Option Rect :=
  if a.isEmpty then some b
  else if b.isEmpty then some a
  else do
    let right := max (← add 64 a.x a.width) (← add 64 b.x b.width)
    let bottom := max (← add 64 a.y a.height) (← add 64 b.y b.height)
    let x := min a.x b.x
    let y := min a.y b.y
    return ⟨x, y, ← sub right x, ← sub bottom y⟩

theorem clip_eq {r : Rect} (right : r.right < 2 ^ 64) (bottom : r.bottom < 2 ^ 64)
    (width height : Nat) : clip width height r = some (r.clip width height) := by
  have wide : min r.x width ≤ min (r.x + r.width) width := by omega
  have high : min r.y height ≤ min (r.y + r.height) height := by omega
  simp [clip, add_eq right, add_eq bottom, sub_eq wide, sub_eq high, Rect.clip, Rect.right,
    Rect.bottom]

theorem union_eq {a b : Rect} (rightA : a.right < 2 ^ 64) (bottomA : a.bottom < 2 ^ 64)
    (rightB : b.right < 2 ^ 64) (bottomB : b.bottom < 2 ^ 64) :
    union a b = some (a.union b) := by
  have wide : min a.x b.x ≤ max (a.x + a.width) (b.x + b.width) := by omega
  have high : min a.y b.y ≤ max (a.y + a.height) (b.y + b.height) := by omega
  simp only [union, Rect.union]
  split
  · rfl
  · split
    · rfl
    · simp [add_eq rightA, add_eq bottomA, add_eq rightB, add_eq bottomB, sub_eq wide,
        sub_eq high, Rect.right, Rect.bottom]

variable {w h : Nat}

def invalidate (area : Rect) (fb : Framebuffer w h) : Option (Framebuffer w h) := do
  let visible ← clip w h area
  if visible.isEmpty then return fb
  else
    match fb.dirty with
    | some changed => return { fb with dirty := some (← union changed visible) }
    | none => return { fb with dirty := some visible }

theorem invalidate_eq {fb : Framebuffer w h} {area : Rect} (countable : Countable w h)
    (inside : fb.MarksInside) (right : area.right < 2 ^ 64) (bottom : area.bottom < 2 ^ 64) :
    invalidate area fb = some (fb.invalidate area) := by
  have wide := countable.width
  have high := countable.height
  simp only [invalidate, Framebuffer.invalidate, clip_eq right bottom, Option.bind_eq_bind,
    Option.bind_some]
  split
  · rfl
  · cases changed : fb.dirty with
    | none => rfl
    | some before =>
        obtain ⟨within, under⟩ := inside before changed
        have visible := Rect.clip_within w h area
        have joined := union_eq (Nat.lt_of_le_of_lt within wide)
          (Nat.lt_of_le_of_lt under high) (Nat.lt_of_le_of_lt visible.1 wide)
          (Nat.lt_of_le_of_lt visible.2 high)
        simp [joined]

/-! ## Lines -/

/-- The pixel numbers of a row from column `offset` to the right edge: the first, and the
one past the last. -/
def line (row offset : Nat) (fb : Framebuffer w h) : Option (Nat × Nat) := do
  let start ← mul 64 row w
  let first ← add 64 start offset
  let stop ← add 64 start w
  if first ≤ stop ∧ stop ≤ fb.pixels.size then return (first, stop) else none

theorem line_eq {fb : Framebuffer w h} {row offset : Nat} (countable : Countable w h)
    (below : row < h) (inside : offset ≤ w) :
    line row offset fb = some (row * w + offset, row * w + w) := by
  have pixels := countable.pixels
  have rows : (row + 1) * w ≤ h * w := Nat.mul_le_mul_right w below
  rw [Nat.add_mul, Nat.one_mul, Nat.mul_comm h w] at rows
  have start : row * w < 2 ^ 64 := by omega
  have first : row * w + offset < 2 ^ 64 := by omega
  have stop : row * w + w < 2 ^ 64 := by omega
  have slice : row * w + offset ≤ row * w + w ∧ row * w + w ≤ w * h :=
    ⟨Nat.add_le_add_left inside _, rows⟩
  simp [line, mul_eq start, add_eq first, add_eq stop, slice]

/-- A fold of which each step is answered is the fold of the answers.  The steps have to be
answered only in states that have what every step keeps. -/
theorem foldlM_eq_foldl_of_keeps {σ α : Type} {checked : σ → α → Option σ} {plain : σ → α → σ}
    {P : σ → Prop} : ∀ (list : List α) (state : σ), P state →
      (∀ x ∈ list, ∀ state, P state →
        checked state x = some (plain state x) ∧ P (plain state x)) →
      list.foldlM checked state = some (list.foldl plain state) := by
  intro list
  induction list with
  | nil =>
      intro state start answered
      rfl
  | cons x rest ih =>
      intro state start answered
      obtain ⟨here, kept⟩ := answered x List.mem_cons_self state start
      rw [List.foldlM_cons, here, Option.bind_eq_bind, Option.bind_some, List.foldl_cons]
      apply ih _ kept
      intro y listed
      exact answered y (List.mem_cons_of_mem x listed)

theorem foldlM_eq_foldl {σ α : Type} {checked : σ → α → Option σ} {plain : σ → α → σ}
    (list : List α) (state : σ)
    (answered : ∀ x ∈ list, ∀ state, checked state x = some (plain state x)) :
    list.foldlM checked state = some (list.foldl plain state) := by
  have always : ∀ x ∈ list, ∀ state, True →
      checked state x = some (plain state x) ∧ True := by
    intro x listed state _
    exact ⟨answered x listed state, trivial⟩
  exact foldlM_eq_foldl_of_keeps list state trivial always

/-! ## Clearing -/

def clearLine (fb : Framebuffer w h) (row : Nat) : Option (Framebuffer w h) := do
  let (first, stop) ← line row 0 fb
  return fb.overwrite first (List.replicate (stop - first) 0)

def clear (fb : Framebuffer w h) : Option (Framebuffer w h) := do
  let dark ← (List.range h).foldlM clearLine fb
  invalidate dark.bounds dark

def darken (fb : Framebuffer w h) (row : Nat) : Framebuffer w h :=
  fb.overwrite (row * w) (List.replicate w 0)

theorem clearLine_eq {row : Nat} (countable : Countable w h) (below : row < h)
    (fb : Framebuffer w h) : clearLine fb row = some (darken fb row) := by
  simp [clearLine, darken, line_eq countable below (Nat.zero_le w)]

theorem overwrite_eq (bytes : List UInt8) : ∀ (start : Nat) (fb : Framebuffer w h),
    (fb.overwrite start bytes).dirty = fb.dirty ∧
      ∀ place < w * h, (fb.overwrite start bytes).pixels[place]? =
        if start ≤ place ∧ place < start + bytes.length then bytes[place - start]?
        else fb.pixels[place]? := by
  induction bytes with
  | nil =>
      intro start fb
      refine ⟨rfl, ?_⟩
      intro place inside
      rw [if_neg (by simp)]
      rfl
  | cons byte rest ih =>
      intro start fb
      obtain ⟨dirty, pixels⟩ :=
        ih (start + 1) { fb with pixels := fb.pixels.setIfInBounds start byte }
      refine ⟨dirty, ?_⟩
      intro place inside
      rw [Framebuffer.overwrite, pixels place inside]
      by_cases here : start = place
      · subst here
        rw [if_neg (by omega), if_pos (by simp)]
        simp [inside]
      · by_cases later : start + 1 ≤ place
        · have shift : place - start = place - (start + 1) + 1 := by omega
          have bounds : start + 1 ≤ place ∧ place < start + 1 + rest.length ↔
              start ≤ place ∧ place < start + (byte :: rest).length := by
            rw [List.length_cons]
            omega
          simp only [bounds, shift, List.getElem?_cons_succ, Vector.getElem?_setIfInBounds, here,
            if_false]
        · rw [if_neg (by omega), if_neg (by omega)]
          simp only [Vector.getElem?_setIfInBounds, here, if_false]

/-- Line by line the picture goes dark from the top. -/
theorem darkened (fb : Framebuffer w h) : ∀ (rows : Nat), rows ≤ h →
    ((List.range rows).foldl darken fb).dirty = fb.dirty ∧
      ∀ place < rows * w, ((List.range rows).foldl darken fb).pixels[place]? = some 0 := by
  intro rows
  induction rows with
  | zero =>
      intro _
      refine ⟨rfl, ?_⟩
      intro place inside
      simp at inside
  | succ rows ih =>
      intro fewer
      obtain ⟨dirty, dark⟩ := ih (Nat.le_of_succ_le fewer)
      rw [List.range_succ, List.foldl_append, List.foldl_cons, List.foldl_nil]
      -- The new line lies below what is dark already and leaves it so.
      generalize (List.range rows).foldl darken fb = above at dirty dark ⊢
      obtain ⟨kept, written⟩ := overwrite_eq (List.replicate w 0) (rows * w) above
      refine ⟨kept.trans dirty, ?_⟩
      intro place inside
      have total : (rows + 1) * w ≤ h * w := Nat.mul_le_mul_right w fewer
      rw [Nat.mul_comm h w] at total
      rw [Nat.add_mul, Nat.one_mul] at inside total
      rw [darken, written place (Nat.lt_of_lt_of_le inside total)]
      split
      · rename_i range
        have column : place - rows * w < w := by omega
        rw [List.getElem?_replicate, if_pos column]
      · rename_i outside
        rw [List.length_replicate] at outside
        exact dark place (by omega)

theorem clear_eq {fb : Framebuffer w h} (countable : Countable w h) (inside : fb.MarksInside) :
    clear fb = some fb.clear := by
  have lines : ∀ row ∈ List.range h, ∀ state : Framebuffer w h,
      clearLine state row = some (darken state row) := by
    intro row listed state
    exact clearLine_eq countable (List.mem_range.mp listed) state
  obtain ⟨dirty, dark⟩ := darkened fb h (Nat.le_refl h)
  have folded := foldlM_eq_foldl (List.range h) fb lines
  generalize (List.range h).foldl darken fb = result at folded dirty dark
  have pixels : result.pixels = Vector.replicate (w * h) 0 := by
    apply Vector.ext
    intro place inside
    have zero := dark place (Nat.mul_comm w h ▸ inside)
    rw [Vector.getElem?_eq_getElem inside] at zero
    rw [Option.some.inj zero, Vector.getElem_replicate]
  have cleared : result = { fb with pixels := Vector.replicate (w * h) 0 } := by
    rw [← pixels, ← dirty]
  have right : result.bounds.right < 2 ^ 64 := by
    simpa [Framebuffer.bounds, Rect.right] using countable.width
  have bottom : result.bounds.bottom < 2 ^ 64 := by
    simpa [Framebuffer.bounds, Rect.bottom] using countable.height
  have marks : result.MarksInside := by
    intro area changed
    exact inside area (dirty ▸ changed)
  simp only [clear, folded, Option.bind_eq_bind, Option.bind_some,
    invalidate_eq countable marks right bottom]
  rw [cleared]
  rfl

/-! ## Drawing -/

def flip (place : Nat) (fb : Framebuffer w h) : Option (Framebuffer w h × Bool) :=
  if _ : place < w * h then
    let byte := fb.pixels[place] ^^^ 0xFF
    some ({ fb with pixels := fb.pixels.set place byte }, byte == 0)
  else
    none

def bit (row : UInt8) (column : Nat) : Option Bool :=
  if column < 8 then some (Sprite.rowBit row column) else none

def drawBit (first : Nat) (row : UInt8) (drawn : Framebuffer w h × Bool) (column : Nat) :
    Option (Framebuffer w h × Bool) := do
  if ← bit row column then
    let flipped ← flip (first + column) drawn.1
    return (flipped.1, drawn.2 || flipped.2)
  else
    return drawn

def drawRow (left top columns : Nat) (drawn : Framebuffer w h × Bool) (row : UInt8 × Nat) :
    Option (Framebuffer w h × Bool) := do
  let y ← add 64 top row.2
  let (first, stop) ← line y left drawn.1
  (List.range (min columns (stop - first))).foldlM (drawBit first row.1) drawn

def draw (sprite : Sprite) (fb : Framebuffer w h) : Option (Framebuffer w h × Bool) := do
  let columns := min 8 (← sub w sprite.left)
  let rows := min sprite.rows.length (← sub h sprite.top)
  let (drawn, hit) ←
    (sprite.rows.take rows).zipIdx.foldlM (drawRow sprite.left sprite.top columns) (fb, false)
  let shown ← invalidate ⟨sprite.left, sprite.top, columns, rows⟩ drawn
  return (shown, hit)

/-- Flip the pixel at a point, and remember whether it was lit. -/
def strike (drawn : Framebuffer w h × Bool) (point : Nat × Nat) : Framebuffer w h × Bool :=
  (drawn.1.flip point.1 point.2, drawn.2 || drawn.1.pixel point.1 point.2 == 0xFF)

def rowPoints (left top columns : Nat) (row : UInt8 × Nat) : List (Nat × Nat) :=
  ((List.range columns).filter (Sprite.rowBit row.1)).map fun column =>
    (left + column, top + row.2)

theorem flip_eq {x y : Nat} (inside : x < w) (below : y < h) (fb : Framebuffer w h) :
    flip (y * w + x) fb = some (fb.flip x y, fb.pixel x y == 0xFF) := by
  have place := Framebuffer.place_lt inside below
  have dark : ∀ byte : UInt8, (byte ^^^ 0xFF == 0) = (byte == 0xFF) := by
    intro byte
    rw [Bool.eq_iff_iff, beq_iff_eq, beq_iff_eq, UInt8.xor_eq_zero_iff]
  simp [flip, place, Framebuffer.flip, Framebuffer.pixel, dark]

theorem drawBit_eq {left y column : Nat} (narrow : column < 8) (inside : left + column < w)
    (below : y < h) (row : UInt8) (drawn : Framebuffer w h × Bool) :
    drawBit (y * w + left) row drawn column =
      some (if Sprite.rowBit row column then strike drawn (left + column, y) else drawn) := by
  have flipped := flip_eq inside below drawn.1
  rw [← Nat.add_assoc] at flipped
  simp only [drawBit, bit, narrow, if_true, Option.bind_eq_bind, Option.bind_some, flipped, strike]
  split <;> rfl

theorem drawRow_eq {left top columns : Nat} (countable : Countable w h) (narrow : columns ≤ 8)
    (inside : left + columns ≤ w) (row : UInt8 × Nat) (below : top + row.2 < h)
    (drawn : Framebuffer w h × Bool) :
    drawRow left top columns drawn row =
      some ((rowPoints left top columns row).foldl strike drawn) := by
  have high := countable.height
  have counted : top + row.2 < 2 ^ 64 := by omega
  have left_le : left ≤ w := by omega
  have visible : min columns ((top + row.2) * w + w - ((top + row.2) * w + left)) = columns := by
    omega
  have bits : ∀ column ∈ List.range columns, ∀ state : Framebuffer w h × Bool,
      drawBit ((top + row.2) * w + left) row.1 state column =
        some (if Sprite.rowBit row.1 column then strike state (left + column, top + row.2)
          else state) := by
    intro column listed state
    have short := List.mem_range.mp listed
    exact drawBit_eq (by omega) (by omega) below row.1 state
  simp only [drawRow, add_eq counted, line_eq countable below left_le, Option.bind_eq_bind,
    Option.bind_some, visible, foldlM_eq_foldl _ drawn bits, rowPoints, List.foldl_map,
    List.foldl_filter]

/-- A cell that is struck keeps every later cell of the sprite as it was. -/
theorem foldl_strike : ∀ (points : List (Nat × Nat)) (fb : Framebuffer w h) (hit : Bool),
    (∀ point ∈ points, point.1 < w ∧ point.2 < h) → points.Nodup →
    points.foldl strike (fb, hit) =
      (fb.flipAll points, hit || points.any fun point => fb.pixel point.1 point.2 == 0xFF) := by
  intro points
  induction points with
  | nil =>
      intro fb hit onDisplay once
      simp [Framebuffer.flipAll]
  | cons point rest ih =>
      intro fb hit onDisplay once
      obtain ⟨inside, below⟩ := onDisplay point List.mem_cons_self
      obtain ⟨fresh, later⟩ := List.nodup_cons.mp once
      have restOnDisplay : ∀ point ∈ rest, point.1 < w ∧ point.2 < h := by
        intro other listed
        exact onDisplay other (List.mem_cons_of_mem _ listed)
      -- The points are distinct, so flipping the first leaves the bytes at the others alone.
      have same : (rest.any fun other => (fb.flip point.1 point.2).pixel other.1 other.2 == 0xFF) =
          rest.any fun other => fb.pixel other.1 other.2 == 0xFF := by
        rw [Bool.eq_iff_iff, List.any_eq_true, List.any_eq_true]
        refine exists_congr fun other => and_congr_right fun listed => ?_
        have apart : ¬ (point.1 = other.1 ∧ point.2 = other.2) := by
          intro equal
          exact fresh ((Prod.ext equal.1 equal.2 : point = other) ▸ listed)
        rw [Framebuffer.pixel_flip fb inside below (restOnDisplay other listed).1, if_neg apart]
      rw [List.foldl_cons, strike, ih _ _ restOnDisplay later, same, List.any_cons, Bool.or_assoc]
      rfl

theorem filter_lt_range (count bound : Nat) :
    (List.range count).filter (· < bound) = List.range (min count bound) := by
  induction count with
  | zero => simp
  | succ count ih =>
      rw [List.range_succ, List.filter_append, ih]
      by_cases small : count < bound
      · have before : min count bound = count := by omega
        have after : min (count + 1) bound = count + 1 := by omega
        rw [after, before, List.range_succ]
        simp [small]
      · have before : min count bound = bound := by omega
        have after : min (count + 1) bound = bound := by omega
        simp [small, before, after]

/-- The cells of a sprite are the points of its visible rows. -/
theorem cells_eq_rowPoints (sprite : Sprite) {rows columns : Nat}
    (visible : rows = min sprite.rows.length (h - sprite.top))
    (narrow : columns = min 8 (w - sprite.left)) :
    sprite.cells w h =
      (sprite.rows.take rows).zipIdx.flatMap (rowPoints sprite.left sprite.top columns) := by
  have onDisplay : ∀ row ∈ (sprite.rows.take rows).zipIdx,
      (((List.range 8).filter fun column =>
          Sprite.rowBit row.1 column && sprite.left + column < w && sprite.top + row.2 < h).map
        fun column => (sprite.left + column, sprite.top + row.2)) =
        rowPoints sprite.left sprite.top columns row := by
    intro row listed
    have short := (List.getElem?_eq_some_iff.mp (List.mem_zipIdx_iff_getElem?.mp listed)).1
    rw [List.length_take] at short
    have below : sprite.top + row.2 < h := by omega
    have bound : ∀ column, decide (sprite.left + column < w) =
        decide (column < w - sprite.left) := by
      intro column
      rw [decide_eq_decide]
      omega
    simp only [rowPoints, narrow, below, decide_true, Bool.and_true, bound, ← filter_lt_range,
      List.filter_filter]
  have offDisplay : ∀ row ∈ (sprite.rows.drop rows).zipIdx (0 + (sprite.rows.take rows).length),
      (((List.range 8).filter fun column =>
          Sprite.rowBit row.1 column && sprite.left + column < w && sprite.top + row.2 < h).map
        fun column => (sprite.left + column, sprite.top + row.2)) = [] := by
    intro row listed
    obtain ⟨least, here⟩ := List.mem_zipIdx_iff_le_and_getElem?_sub.mp listed
    have fewer := (List.getElem?_eq_some_iff.mp here).1
    rw [List.length_drop] at fewer
    rw [List.length_take] at least
    have outside : ¬ sprite.top + row.2 < h := by omega
    simp [outside]
  -- Only the first `rows` rows meet the display; `cells` tests for that cell by cell.
  rw [Sprite.cells, ← List.take_append_drop rows sprite.rows, List.zipIdx_append,
    List.flatMap_append, List.flatMap_eq_nil_iff.mpr offDisplay, List.append_nil,
    List.take_append_drop, List.flatMap_def, List.flatMap_def, List.map_congr_left onDisplay]

theorem draw_eq {sprite : Sprite} {fb : Framebuffer w h} (countable : Countable w h)
    (marks : fb.MarksInside) (inside : sprite.left < w) (below : sprite.top < h) :
    draw sprite fb = some (fb.draw sprite, fb.collides sprite) := by
  have wide := countable.width
  have high := countable.height
  obtain ⟨rows, visible⟩ : ∃ rows, rows = min sprite.rows.length (h - sprite.top) := ⟨_, rfl⟩
  obtain ⟨columns, narrow⟩ : ∃ columns, columns = min 8 (w - sprite.left) := ⟨_, rfl⟩
  have each : ∀ row ∈ (sprite.rows.take rows).zipIdx, ∀ state : Framebuffer w h × Bool,
      drawRow sprite.left sprite.top columns state row =
        some ((rowPoints sprite.left sprite.top columns row).foldl strike state) := by
    intro row listed state
    have short := (List.getElem?_eq_some_iff.mp (List.mem_zipIdx_iff_getElem?.mp listed)).1
    rw [List.length_take] at short
    exact drawRow_eq countable (by omega) (by omega) row (by omega) state
  have folded := foldlM_eq_foldl _ (fb, false) each
  have onDisplay : ∀ point ∈ sprite.cells w h, point.1 < w ∧ point.2 < h := by
    intro point listed
    exact (Sprite.mem_cells.mp listed).2
  rw [← List.foldl_flatMap, ← cells_eq_rowPoints sprite visible narrow,
    foldl_strike _ _ _ onDisplay (Sprite.nodup_cells w h sprite), Bool.false_or] at folded
  have marked : (fb.flipAll (sprite.cells w h)).MarksInside := by
    intro area changed
    exact marks area (fb.dirty_flipAll _ ▸ changed)
  have right : (sprite.area w h).right < 2 ^ 64 := by
    simp only [Sprite.area, Rect.right]
    omega
  have bottom : (sprite.area w h).bottom < 2 ^ 64 := by
    simp only [Sprite.area, Rect.bottom]
    omega
  have shown := invalidate_eq countable marked right bottom
  rw [Sprite.area, ← visible, ← narrow] at shown
  simp only [draw, sub_eq (Nat.le_of_lt inside), sub_eq (Nat.le_of_lt below), Option.bind_eq_bind,
    Option.bind_some, ← visible, ← narrow, folded, shown]
  rw [visible, narrow]
  rfl

end Checked

end Chip8
