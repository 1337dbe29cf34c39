import Chip8.Proofs.HeldKeys

/-!
# Schedules as finite maps

A schedule that is read keeps its changes by ascending frame.  So it is the finite map from
frames to keys that its look-ups show: it is known by them, and its last frame is the greatest
that has keys.
-/

set_option autoImplicit false

namespace Chip8.KeySchedule

def Ordered (schedule : KeySchedule) : Prop :=
  schedule.changes.Pairwise fun earlier later => earlier.1 < later.1

variable {schedule : KeySchedule}

theorem mem_place {frame : Nat} {keys : KeySet} {changes : List (Nat × KeySet)}
    {change : Nat × KeySet} :
    change ∈ place frame keys changes ↔ change = (frame, keys) ∨ change ∈ changes := by
  induction changes with
  | nil => simp [place]
  | cons first later ih =>
      obtain ⟨other, held⟩ := first
      rw [place]
      split
      · simp only [List.mem_cons]
      · simp only [List.mem_cons, ih, or_left_comm]

theorem pairwise_place {frame : Nat} {changes : List (Nat × KeySet)} (keys : KeySet)
    (ordered : changes.Pairwise fun earlier later => earlier.1 < later.1)
    (fresh : ∀ change ∈ changes, change.1 ≠ frame) :
    (place frame keys changes).Pairwise fun earlier later => earlier.1 < later.1 := by
  induction changes with
  | nil => exact List.pairwise_singleton _ _
  | cons first later ih =>
      obtain ⟨other, held⟩ := first
      obtain ⟨above, laterOrdered⟩ := List.pairwise_cons.mp ordered
      obtain ⟨apart, laterFresh⟩ := List.forall_mem_cons.mp fresh
      rw [place]
      split
      · rename_i below
        refine List.pairwise_cons.mpr ⟨?_, ordered⟩
        refine List.forall_mem_cons.mpr ⟨below, ?_⟩
        exact fun change listed => Nat.lt_trans below (above change listed)
      · rename_i notBelow
        refine List.pairwise_cons.mpr ⟨?_, ih laterOrdered laterFresh⟩
        intro change listed
        rcases mem_place.mp listed with rfl | behind
        · exact Nat.lt_of_le_of_ne (Nat.not_lt.mp notBelow) apart
        · exact above change behind

theorem keysAt?_eq_none {frame : Nat} :
    schedule.keysAt? frame = none ↔ ∀ change ∈ schedule.changes, change.1 ≠ frame := by
  simp only [keysAt?, List.lookup_eq_none_iff, bne_iff_ne, ne_comm]

theorem Ordered.insert? {frame : Nat} {keys : KeySet} {longer : KeySchedule}
    (ordered : schedule.Ordered) (added : schedule.insert? frame keys = some longer) :
    longer.Ordered := by
  have fresh := keysAt?_eq_none.mp (keysAt?_of_insert? added)
  unfold KeySchedule.insert? at added
  split at added
  · cases added
  · cases added
    exact pairwise_place keys ordered fresh

theorem Ordered.readEntries {texts : List (List Char)} {schedule longer : KeySchedule}
    (ordered : schedule.Ordered) (read : readEntries schedule texts = .ok longer) :
    longer.Ordered := by
  induction texts generalizing schedule with
  | nil =>
      cases read
      exact ordered
  | cons entry rest ih =>
      obtain ⟨frame, keys, middle, -, added, later⟩ := readEntries_cons_eq_ok_iff.mp read
      exact ih (ordered.insert? added) later

theorem ordered_empty : empty.Ordered := List.Pairwise.nil

theorem ordered_ofText {text : String} (read : ofText text = .ok schedule) : schedule.Ordered :=
  ordered_empty.readEntries read

theorem mem_changes_of_keysAt? {frame : Nat} {keys : KeySet}
    (change : schedule.keysAt? frame = some keys) : (frame, keys) ∈ schedule.changes := by
  obtain ⟨before, after, listed, -⟩ := List.lookup_eq_some_iff.mp change
  rw [listed]
  exact List.mem_append_right before List.mem_cons_self

theorem Ordered.keysAt?_of_mem {frame : Nat} {keys : KeySet} (ordered : schedule.Ordered)
    (listed : (frame, keys) ∈ schedule.changes) : schedule.keysAt? frame = some keys := by
  obtain ⟨before, after, split⟩ := List.append_of_mem listed
  refine List.lookup_eq_some_iff.mpr ⟨before, after, split, ?_⟩
  intro change earlier
  rw [Ordered, split, List.pairwise_append] at ordered
  exact bne_iff_ne.mpr (Nat.ne_of_gt (ordered.2.2 change earlier _ List.mem_cons_self))

theorem Ordered.mem_changes_iff {frame : Nat} {keys : KeySet} (ordered : schedule.Ordered) :
    (frame, keys) ∈ schedule.changes ↔ schedule.keysAt? frame = some keys :=
  ⟨ordered.keysAt?_of_mem, mem_changes_of_keysAt?⟩

theorem Ordered.nodup (ordered : schedule.Ordered) : schedule.changes.Nodup := by
  refine List.Pairwise.imp ?_ ordered
  rintro change other below rfl
  exact Nat.lt_irrefl _ below

/-- A schedule is known by the keys that it has at each frame. -/
theorem Ordered.ext {a b : KeySchedule} (orderedA : a.Ordered) (orderedB : b.Ordered)
    (same : ∀ frame, a.keysAt? frame = b.keysAt? frame) : a = b := by
  have members : ∀ change, change ∈ a.changes ↔ change ∈ b.changes := by
    rintro ⟨frame, keys⟩
    rw [orderedA.mem_changes_iff, orderedB.mem_changes_iff, same]
  have perm := (List.perm_ext_iff_of_nodup orderedA.nodup orderedB.nodup).mpr members
  have equal : a.changes = b.changes := by
    refine perm.eq_of_pairwise ?_ orderedA orderedB
    exact fun _ _ _ _ below above => absurd below (Nat.lt_asymm above)
  cases a
  cases b
  exact congrArg _ equal

def IsLast (schedule : KeySchedule) (last : Nat) : Prop :=
  (schedule.keysAt? last).isSome ∧ ∀ frame, (schedule.keysAt? frame).isSome → frame ≤ last

theorem IsLast.unique {last other : Nat} (isLast : schedule.IsLast last)
    (otherLast : schedule.IsLast other) : last = other :=
  Nat.le_antisymm (otherLast.2 last isLast.1) (isLast.2 other otherLast.1)

theorem Ordered.isLast_of_lastFrame? {last : Nat} (ordered : schedule.Ordered)
    (final : schedule.lastFrame? = some last) : schedule.IsLast last := by
  obtain ⟨⟨frame, keys⟩, latest, rfl⟩ := Option.map_eq_some_iff.mp final
  obtain ⟨earlier, split⟩ := List.getLast?_eq_some_iff.mp latest
  have above : ∀ change ∈ earlier, change.1 < frame := by
    rw [Ordered, split, List.pairwise_append] at ordered
    intro change listed
    exact ordered.2.2 change listed _ List.mem_cons_self
  refine ⟨?_, ?_⟩
  · have listed : (frame, keys) ∈ schedule.changes := List.mem_of_getLast? latest
    rw [ordered.keysAt?_of_mem listed]
    rfl
  · intro other scheduled
    obtain ⟨held, change⟩ := Option.isSome_iff_exists.mp scheduled
    have listed := mem_changes_of_keysAt? change
    rw [split, List.mem_append, List.mem_singleton] at listed
    rcases listed with before | same
    · exact Nat.le_of_lt (above _ before)
    · cases same
      exact Nat.le_refl frame

theorem Ordered.lastFrame?_eq_some_iff {last : Nat} (ordered : schedule.Ordered) :
    schedule.lastFrame? = some last ↔ schedule.IsLast last := by
  refine ⟨ordered.isLast_of_lastFrame?, ?_⟩
  intro isLast
  cases final : schedule.lastFrame? with
  | some greatest => rw [isLast.unique (ordered.isLast_of_lastFrame? final)]
  | none =>
      -- Without a last change there is none, yet there are keys at `last`.
      have bare := List.getLast?_eq_none_iff.mp (Option.map_eq_none_iff.mp final)
      have unset : schedule.keysAt? last = none := by
        rw [keysAt?_eq_none, bare]
        nofun
      rw [IsLast, unset] at isLast
      cases isLast.1

theorem isEmpty_iff : schedule.isEmpty = true ↔ ∀ frame, schedule.keysAt? frame = none := by
  simp only [isEmpty, List.isEmpty_iff, keysAt?_eq_none]
  constructor
  · intro none
    simp [none]
  · intro free
    exact List.eq_nil_iff_forall_not_mem.mpr fun change listed => free change.1 change listed rfl

end Chip8.KeySchedule
