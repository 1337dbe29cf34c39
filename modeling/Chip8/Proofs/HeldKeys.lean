import Chip8.Proofs.Budget

/-!
# Scheduled keys are held

A schedule names single frames, and a player looks up the frame that it is in and no other.
The keypad keeps what it was last set to, so the keys of an entry are nevertheless held until
the next entry: in every frame the keypad is that of the greatest scheduled frame up to it.
-/

set_option autoImplicit false

namespace Chip8

namespace KeySchedule

def Sets (text : String) (frame : Nat) (keys : KeySet) : Prop :=
  ∃ entry ∈ entries text.toList, readEntry entry = .ok (frame, keys)

/-- The keys to hold in a frame: those set at the greatest frame up to it at which any are
set, or none. -/
def Holds (text : String) (frame : Nat) (keys : KeySet) : Prop :=
  (∃ latest ≤ frame, Sets text latest keys ∧
    ∀ later, latest < later → later ≤ frame → ∀ other, ¬ Sets text later other) ∨
  (keys = ∅ ∧ ∀ earlier ≤ frame, ∀ other, ¬ Sets text earlier other)

/-! ## What is read from a text -/

theorem keysAt?_of_insert? {frame : Nat} {keys : KeySet} {schedule longer : KeySchedule}
    (added : schedule.insert? frame keys = some longer) : schedule.keysAt? frame = none := by
  unfold insert? at added
  split at added
  · cases added
  · rename_i free
    exact Option.not_isSome_iff_eq_none.mp free

theorem readEntries_cons_eq_ok_iff {entry : List Char} {rest : List (List Char)}
    {schedule longer : KeySchedule} : readEntries schedule (entry :: rest) = .ok longer ↔
      ∃ frame keys middle, readEntry entry = .ok (frame, keys) ∧
        schedule.insert? frame keys = some middle ∧ readEntries middle rest = .ok longer := by
  rw [readEntries]
  cases readEntry entry with
  | error malformed => simp
  | ok change =>
      obtain ⟨frame, keys⟩ := change
      constructor
      · intro read
        dsimp only at read
        split at read
        · cases read
        · rename_i middle added
          exact ⟨frame, keys, middle, rfl, added, read⟩
      · rintro ⟨_, _, middle, ⟨⟩, added, read⟩
        dsimp only
        rw [added]
        exact read

theorem keysAt?_readEntries {texts : List (List Char)} {schedule longer : KeySchedule}
    (read : readEntries schedule texts = .ok longer) (frame : Nat) (keys : KeySet) :
    longer.keysAt? frame = some keys ↔
      schedule.keysAt? frame = some keys ∨
        ∃ entry ∈ texts, readEntry entry = .ok (frame, keys) := by
  induction texts generalizing schedule with
  | nil =>
      cases read
      simp
  | cons entry rest ih =>
      obtain ⟨start, held, middle, first, added, later⟩ := readEntries_cons_eq_ok_iff.mp read
      -- No frame is set twice, so the new entry takes no earlier one's place.
      have fresh := keysAt?_of_insert? added
      rw [ih later, keysAt?_insert? added]
      simp only [List.mem_cons, exists_eq_or_imp, first, Except.ok.injEq, Prod.mk.injEq]
      by_cases here : frame = start
      · subst here
        simp [fresh]
      · simp [here, Ne.symm here]

theorem keysAt?_ofText {text : String} {schedule : KeySchedule}
    (read : ofText text = .ok schedule) (frame : Nat) (keys : KeySet) :
    schedule.keysAt? frame = some keys ↔ Sets text frame keys := by
  rw [keysAt?_readEntries read, Sets]
  constructor
  · rintro (before | listed)
    · cases before
    · exact listed
  · exact .inr

theorem keysAt?_eq_none_iff {text : String} {schedule : KeySchedule}
    (read : ofText text = .ok schedule) (frame : Nat) :
    schedule.keysAt? frame = none ↔ ∀ keys, ¬ Sets text frame keys := by
  simp only [Option.eq_none_iff_forall_ne_some, ne_eq, keysAt?_ofText read]

/-! ## The keys that are held -/

def heldBefore (schedule : KeySchedule) : Nat → KeySet
  | 0 => ∅
  | frame + 1 => (schedule.keysAt? frame).getD (schedule.heldBefore frame)

theorem holds_of_sets {text : String} {frame : Nat} {keys : KeySet}
    (set : Sets text frame keys) : Holds text frame keys := by
  refine .inl ⟨frame, Nat.le_refl _, set, ?_⟩
  intro later above within
  omega

theorem holds_empty {text : String} (unset : ∀ keys, ¬ Sets text 0 keys) : Holds text 0 ∅ := by
  refine .inr ⟨rfl, ?_⟩
  intro earlier within
  rw [Nat.le_zero.mp within]
  exact unset

theorem Holds.succ {text : String} {frame : Nat} {keys : KeySet} (holds : Holds text frame keys)
    (unset : ∀ other, ¬ Sets text (frame + 1) other) : Holds text (frame + 1) keys := by
  rcases holds with ⟨latest, within, set, last⟩ | ⟨none, never⟩
  · refine .inl ⟨latest, Nat.le_succ_of_le within, set, ?_⟩
    intro later above still
    rcases Nat.le_succ_iff.mp still with earlier | rfl
    · exact last later above earlier
    · exact unset
  · refine .inr ⟨none, ?_⟩
    intro earlier still
    rcases Nat.le_succ_iff.mp still with before | rfl
    · exact never earlier before
    · exact unset

theorem holds_heldBefore {text : String} {schedule : KeySchedule}
    (read : ofText text = .ok schedule) (frame : Nat) :
    Holds text frame (schedule.heldBefore (frame + 1)) := by
  have step : ∀ frame, (∃ keys, Sets text frame keys ∧ schedule.heldBefore (frame + 1) = keys) ∨
      (∀ keys, ¬ Sets text frame keys) ∧
        schedule.heldBefore (frame + 1) = schedule.heldBefore frame := by
    intro frame
    rw [heldBefore]
    cases change : schedule.keysAt? frame with
    | none => exact .inr ⟨(keysAt?_eq_none_iff read frame).mp change, rfl⟩
    | some keys => exact .inl ⟨keys, (keysAt?_ofText read frame keys).mp change, rfl⟩
  induction frame with
  | zero =>
      rcases step 0 with ⟨keys, set, held⟩ | ⟨unset, held⟩
      · exact held ▸ holds_of_sets set
      · exact held ▸ holds_empty unset
  | succ frame ih =>
      rcases step (frame + 1) with ⟨keys, set, held⟩ | ⟨unset, held⟩
      · exact held ▸ holds_of_sets set
      · exact held ▸ ih.succ unset

end KeySchedule

namespace Player

/-- A player whose keypad holds what its schedule has set so far. -/
def OnSchedule (player : Player) : Prop :=
  player.keypad = player.schedule.heldBefore player.frame

theorem keypad_followSchedule (player : Player) :
    player.followSchedule.keypad =
      (player.schedule.keysAt? player.frame).getD player.keypad := by
  unfold followSchedule
  cases player.schedule.keysAt? player.frame with
  | none => rfl
  | some keys => rfl

theorem schedule_followSchedule (player : Player) :
    player.followSchedule.schedule = player.schedule := by
  obtain ⟨keypad, followed⟩ := player.followSchedule_eq
  rw [followed]

theorem keypad_runFrame (player : Player) :
    player.runFrame.1.keypad = player.followSchedule.keypad := by
  obtain ⟨machine, surface, played⟩ := player.runFrame_eq
  rw [played]

theorem OnSchedule.followSchedule {player : Player} (onSchedule : player.OnSchedule) :
    player.followSchedule.keypad = player.schedule.heldBefore (player.frame + 1) := by
  rw [keypad_followSchedule, onSchedule]
  rfl

theorem OnSchedule.runFrame {player : Player} (onSchedule : player.OnSchedule) :
    player.runFrame.1.OnSchedule := by
  obtain ⟨machine, surface, played⟩ := player.runFrame_eq
  rw [played]
  show player.followSchedule.keypad = player.followSchedule.schedule.heldBefore (player.frame + 1)
  rw [schedule_followSchedule]
  exact onSchedule.followSchedule

def Action.isTouch : Action → Bool
  | .touch _ => true
  | .load _ | .frame => false

def framesSinceLoad (count : Nat) : List Action → Nat
  | [] => count
  | .load _ :: later => framesSinceLoad 0 later
  | .touch _ :: later => framesSinceLoad count later
  | .frame :: later => framesSinceLoad (count + 1) later

theorem frame_afterAll (actions : List Action) (player : Player) :
    (player.afterAll actions).frame = framesSinceLoad player.frame actions := by
  induction actions generalizing player with
  | nil => rfl
  | cons action later ih =>
      rw [afterAll, ih]
      cases action with
      | load program => rfl
      | touch event => rfl
      | frame => rfl

theorem OnSchedule.afterAll (actions : List Action) {player : Player}
    (onSchedule : player.OnSchedule)
    (untouched : ∀ action ∈ actions, action.isTouch = false) :
    (player.afterAll actions).OnSchedule := by
  induction actions generalizing player with
  | nil => exact onSchedule
  | cons action later ih =>
      obtain ⟨first, restUntouched⟩ := List.forall_mem_cons.mp untouched
      have after : (player.after action).OnSchedule := by
        cases action with
        | load program => rfl
        | touch event => cases first
        | frame => exact onSchedule.runFrame
      exact ih after restUntouched

theorem keys_in_frame (player : Player) {i : Nat} (running : i < player.cyclesInFrame) :
    (player.machine.afterCycles (fun _ => player.followSchedule.keypad) (i + 1)).keys =
      player.followSchedule.keypad := by
  rw [Machine.afterCycles_succ]
  exact Machine.keys_cycle _ (player.keepsBudget.unfinished i running).1

/-- A player that is left to its schedule holds the scheduled keys: they are what every cycle
of a frame sees and what the keypad shows after it; and a load lets go of all keys. -/
theorem keypad_holds_script (config : Config) (settings : PlayerSettings) (text : String)
    (schedule : KeySchedule) (read : KeySchedule.ofText text = .ok schedule)
    (actions : List Action) (untouched : ∀ action ∈ actions, action.isTouch = false) :
    let player := (Player.new config { settings with schedule }).afterAll actions
    let held := player.runFrame.1.keypad
    KeySchedule.Holds text (framesSinceLoad 0 actions) held ∧
      player.runFrame.1.machine =
        (player.machine.afterCycles (fun _ => held) player.cyclesInFrame).unmarked ∧
      (∀ i < player.cyclesInFrame,
        (player.machine.afterCycles (fun _ => held) (i + 1)).keys = held) ∧
      ∀ program, (player.load program).1.keypad = ∅ := by
  intro player held
  have onSchedule : player.OnSchedule := OnSchedule.afterAll actions rfl untouched
  have setUp := (new_setUp config { settings with schedule }).afterAll actions
  have same : held = player.followSchedule.keypad := keypad_runFrame player
  have frame : player.frame = framesSinceLoad 0 actions := frame_afterAll actions _
  rw [same]
  refine ⟨?_, player.machine_runFrame, fun i running => keys_in_frame player running, ?_⟩
  · rw [onSchedule.followSchedule, setUp.schedule, frame]
    exact KeySchedule.holds_heldBefore read _
  · intro program
    rfl

/-- A key of an earlier entry is held in the third frame after a reload. -/
theorem keypad_holds_script_of_reload :
    let text := "4=1, 1=5,\t3="
    let schedule : KeySchedule := ⟨[(1, ⟨0x0020⟩), (3, ∅), (4, ⟨0x0002⟩)]⟩
    let actions : List Action :=
      [.load [0x12, 0x00], .frame, .frame, .load [0x12, 0x00], .frame, .frame]
    let player :=
      (Player.new { memorySize := 0x202 } { schedule, budget := 500 }).afterAll actions
    KeySchedule.ofText text = .ok schedule ∧ framesSinceLoad 0 actions = 2 ∧
      player.runFrame.1.keypad = ⟨0x0020⟩ ∧
      KeySchedule.Holds text 2 player.runFrame.1.keypad := by
  intro text schedule actions player
  have read : KeySchedule.ofText text = .ok schedule := by decide +kernel
  have untouched : ∀ action ∈ actions, action.isTouch = false := by decide
  have script := keypad_holds_script { memorySize := 0x202 } { budget := 500 } text schedule read
    actions untouched
  have held : player.runFrame.1.keypad = ⟨0x0020⟩ := by decide +kernel
  exact ⟨read, rfl, held, script.1⟩

end Player

end Chip8
