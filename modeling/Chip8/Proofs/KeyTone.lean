import Chip8.Proofs.KeyWait
import Chip8.Proofs.Reset

/-!
# The tone of a held key

A machine that waits for a key lifts its sound timer before the time of the cycle passes, and the
timer drops by one at most in that time.  So the tone never pauses while a key is down, however
the deadline falls, and the timer is not lifted further than the tone needs.  Where the tone is
not configured, no key makes a difference to the timer.  The delay timer never takes notice.
-/

set_option autoImplicit false

namespace Chip8

namespace Countdown

theorem toNat_sustain (value : UInt8) (now : Nat) (timer : Countdown) :
    (timer.sustain value now).value.toNat = max value.toNat timer.value.toNat := by
  simp only [sustain]
  split
  · rename_i low
    have below : timer.value.toNat < value.toNat := UInt8.lt_iff_toNat_lt.mp low
    exact (Nat.max_eq_left (Nat.le_of_lt below)).symm
  · rename_i high
    have above : value.toNat ≤ timer.value.toNat :=
      Nat.le_of_not_lt fun below => high (UInt8.lt_iff_toNat_lt.mpr below)
    exact (Nat.max_eq_right above).symm

/-- A look at a timer takes one from it at most, and adds nothing. -/
theorem toNat_refresh (now : Nat) (timer : Countdown) :
    (timer.refresh now).value.toNat ≤ timer.value.toNat ∧
      timer.value.toNat ≤ (timer.refresh now).value.toNat + 1 := by
  by_cases stopped : timer.value = 0
  · rw [refresh_of_value_eq_zero stopped]
    omega
  · by_cases due : timer.deadline ≤ now
    · have running : 0 < timer.value := UInt8.pos_iff_ne_zero.mpr stopped
      have positive : 1 ≤ timer.value.toNat := UInt8.lt_iff_toNat_lt.mp running
      have dropped : (timer.value - 1).toNat = timer.value.toNat - 1 :=
        UInt8.toNat_sub_of_le _ _ (UInt8.le_iff_toNat_le.mpr positive)
      rw [refresh_of_due running due, dropped]
      omega
    · rw [refresh_of_lt (Nat.lt_of_not_le due)]
      omega

theorem isRunning_of_pos {timer : Countdown} (positive : 0 < timer.value.toNat) :
    timer.isRunning = true := by
  have running : timer.value ≠ 0 := UInt8.pos_iff_ne_zero.mp (UInt8.lt_iff_toNat_lt.mpr positive)
  simpa [isRunning] using running

/-- A timer that nothing but the time of some key polls has passed over, from a clock on. -/
def afterPolls (clock : Nat) (timer : Countdown) : Nat → Countdown
  | 0 => timer
  | count + 1 => (timer.afterPolls clock count).refresh (clock + 144 * (count + 1))

end Countdown

namespace Machine

open Countdown (Setting leftOf)

variable {w h : Nat}

/-! ## One cycle of a wait -/

theorem isOk_cycle_of_waits (keys : KeySet) {m : Machine w h} (ok : m.isOk = true)
    (waits : m.isWaiting = true) : (m.cycle keys).1.isOk = true := by
  obtain ⟨wait, waiting⟩ := Option.isSome_iff_exists.mp waits
  exact (cycle_pollsOnly keys ok waiting).ok

theorem clock_cycle_of_waits (keys : KeySet) {m : Machine w h} (ok : m.isOk = true)
    (waits : m.isWaiting = true) : (m.cycle keys).1.clock = m.clock + 144 := by
  obtain ⟨wait, waiting⟩ := Option.isSome_iff_exists.mp waits
  rw [(m.cycle_effect keys).clock, (cycle_pollsOnly keys ok waiting).cost]

theorem executes?_of_waits {m : Machine w h} (waits : m.isWaiting = true) :
    m.executes? = none := by
  obtain ⟨wait, waiting⟩ := Option.isSome_iff_exists.mp waits
  exact executes?_of_waiting waiting

/-- With a key down the sound timer is lifted first and looked at afterwards. -/
theorem sound_cycle_of_held {keys : KeySet} {m : Machine w h} (ok : m.isOk = true)
    (waits : m.isWaiting = true) (tone : m.config.keyTone = true) (held : keys ≠ ∅) :
    (m.cycle keys).1.sound = (m.sound.sustain keyToneLength m.clock).refresh (m.clock + 144) := by
  have down : keys.isEmpty = false :=
    Bool.eq_false_iff.mpr fun allUp => held (KeySet.isEmpty_iff.mp allUp)
  have holds : m.holdsTone keys = true := by simp [holdsTone, ok, waits, down, tone]
  rw [(m.cycle_effect keys).sound ok, soundSet, if_pos holds, clock_cycle_of_waits keys ok waits]

theorem sound_cycle_of_silent (keys : KeySet) {m : Machine w h} (ok : m.isOk = true)
    (waits : m.isWaiting = true) (silent : m.config.keyTone = false) :
    (m.cycle keys).1.sound = m.sound.refresh (m.clock + 144) := by
  have holds : m.holdsTone keys = false := by simp [holdsTone, silent]
  rw [(m.cycle_effect keys).sound ok, soundSet, holds, executes?_of_waits waits,
    clock_cycle_of_waits keys ok waits]
  rfl

theorem delay_shows_of_waits {latest : Option Setting} {m : Machine w h}
    (waits : m.isWaiting = true) (keys : KeySet) (shows : m.delay.Shows latest m.clock) :
    (m.cycle keys).1.delay.Shows latest (m.cycle keys).1.clock := by
  have unset : m.noteDelay (.cycle keys) latest = latest := by
    simp only [noteDelay, executes?_of_waits waits]
  exact unset ▸ delay_shows m (.cycle keys) latest shows

/-- A key that is down keeps the wait going and the tone between two bounds: the lifted timer is
at least four, and the look that follows takes one at most. -/
theorem tone_cycle_of_held {keys : KeySet} {m : Machine w h} (ok : m.isOk = true)
    (waits : m.isWaiting = true) (tone : m.config.keyTone = true) (held : keys ≠ ∅) :
    (m.cycle keys).1.isWaiting = true ∧ 3 ≤ (m.cycle keys).1.sound.value.toNat ∧
      (m.cycle keys).1.sound.value.toNat ≤ max 4 m.sound.value.toNat := by
  have goesOn : (m.cycle keys).1.isWaiting = true := by
    obtain ⟨x, waiting⟩ := Option.isSome_iff_exists.mp waits
    have goesOn := wait_cycle_of_unreleased ok waiting fun allUp => absurd allUp held
    exact congrArg Option.isSome goesOn.1
  have lifted := Countdown.toNat_sustain keyToneLength m.clock m.sound
  have looked :=
    Countdown.toNat_refresh (m.clock + 144) (m.sound.sustain keyToneLength m.clock)
  have length : keyToneLength.toNat = 4 := rfl
  rw [lifted, length, ← sound_cycle_of_held ok waits tone held] at looked
  refine ⟨goesOn, ?_, looked.1⟩
  omega

/-! ## The run of a wait -/

theorem isOk_afterCycles_of_waits {samples : Nat → KeySet} {m : Machine w h} (ok : m.isOk = true)
    {count : Nat} (waits : ∀ i < count, (m.afterCycles samples i).isWaiting = true) :
    (m.afterCycles samples count).isOk = true := by
  induction count with
  | zero => exact ok
  | succ count ih =>
      have before := ih fun i early => waits i (Nat.lt_succ_of_lt early)
      exact isOk_cycle_of_waits _ before (waits count (Nat.lt_succ_self count))

/-- What the cycles of a wait keep, counting them, holds as long as it lasts. -/
theorem afterCycles_keeps_of_waits {P : Nat → Machine w h → Prop} {samples : Nat → KeySet}
    (kept : ∀ (i : Nat) (later : Machine w h), later.isOk = true → later.isWaiting = true →
      P i later → P (i + 1) (later.cycle (samples i)).1)
    {m : Machine w h} (ok : m.isOk = true) (start : P 0 m) {count : Nat}
    (waits : ∀ i < count, (m.afterCycles samples i).isWaiting = true) :
    P count (m.afterCycles samples count) := by
  induction count with
  | zero => exact start
  | succ count ih =>
      have earlier := fun i early => waits i (Nat.lt_succ_of_lt early)
      exact kept count _ (isOk_afterCycles_of_waits ok earlier)
        (waits count (Nat.lt_succ_self count)) (ih earlier)

theorem clock_afterCycles_of_waits {samples : Nat → KeySet} {m : Machine w h} (ok : m.isOk = true)
    {count : Nat} (waits : ∀ i < count, (m.afterCycles samples i).isWaiting = true) :
    (m.afterCycles samples count).clock = m.clock + 144 * count := by
  refine afterCycles_keeps_of_waits (P := fun i later => later.clock = m.clock + 144 * i)
    ?_ ok rfl waits
  intro i later before waiting clock
  rw [clock_cycle_of_waits _ before waiting, clock, Nat.mul_succ, Nat.add_assoc]

theorem delay_afterCycles_of_waits {samples : Nat → KeySet} {m : Machine w h}
    {latest : Option Setting} (ok : m.isOk = true) (shows : m.delay.Shows latest m.clock)
    {count : Nat} (waits : ∀ i < count, (m.afterCycles samples i).isWaiting = true) :
    (m.afterCycles samples count).delay.Shows latest (m.afterCycles samples count).clock := by
  refine afterCycles_keeps_of_waits (P := fun _ later => later.delay.Shows latest later.clock)
    ?_ ok shows waits
  intro i later _ waiting before
  exact delay_shows_of_waits waiting (samples i) before

theorem delay_shows_through (history : List Interaction) {m : Machine w h}
    {latest : Option Setting} (shows : m.delay.Shows latest m.clock) :
    (m.through history).delay.Shows (m.notes noteDelay latest history)
      (m.through history).clock := by
  refine notes_keeps (P := fun m latest => m.delay.Shows latest m.clock) history ?_ shows
  rintro (action | _) _ m latest before
  · exact delay_shows m action latest before
  · exact before

theorem config_afterCycles (samples : Nat → KeySet) (m : Machine w h) (count : Nat) :
    (m.afterCycles samples count).config = m.config :=
  afterCycles_keeps (P := fun later => later.config = m.config)
    (fun later keys same => (later.cycle_effect keys).config.trans same) samples rfl count

/-! ## A held key -/

/-- While keys are held a machine waits on, and its sound timer keeps between two bounds. -/
theorem tone_afterCycles_of_held {samples : Nat → KeySet} {m : Machine w h}
    (ok : m.isOk = true) (waits : m.isWaiting = true) (tone : m.config.keyTone = true)
    {count : Nat} (held : ∀ i < count, samples i ≠ ∅) :
    (∀ i ≤ count, (m.afterCycles samples i).isWaiting = true) ∧
      (m.afterCycles samples count).sound.value.toNat ≤ max 4 m.sound.value.toNat ∧
      (0 < count → 3 ≤ (m.afterCycles samples count).sound.value.toNat) := by
  induction count with
  | zero =>
      refine ⟨?_, Nat.le_max_right _ _, fun none => absurd none (Nat.lt_irrefl 0)⟩
      intro i none
      rw [Nat.le_zero.mp none]
      exact waits
  | succ count ih =>
      obtain ⟨goesOn, high, _⟩ := ih fun i early => held i (Nat.lt_succ_of_lt early)
      have before := isOk_afterCycles_of_waits ok fun i early => goesOn i (Nat.le_of_lt early)
      obtain ⟨stays, low, most⟩ := tone_cycle_of_held before (goesOn count (Nat.le_refl count))
        (config_afterCycles samples m count ▸ tone) (held count (Nat.lt_succ_self count))
      rw [afterCycles_succ]
      refine ⟨?_, by omega, fun _ => low⟩
      intro i early
      rcases Nat.lt_or_eq_of_le early with earlier | last
      · exact goesOn i (Nat.le_of_lt_succ earlier)
      · rw [last, afterCycles_succ]
        exact stays

/-! ## No key tone -/

/-- Without a key tone a waiting machine leaves its sound timer to time. -/
theorem sound_afterCycles_of_silent {samples : Nat → KeySet} {m : Machine w h}
    (ok : m.isOk = true) (silent : m.config.keyTone = false) {count : Nat}
    (waits : ∀ i < count, (m.afterCycles samples i).isWaiting = true) :
    (m.afterCycles samples count).sound = m.sound.afterPolls m.clock count := by
  induction count with
  | zero => rfl
  | succ count ih =>
      have earlier := fun i early => waits i (Nat.lt_succ_of_lt early)
      have before := isOk_afterCycles_of_waits ok earlier
      have stillSilent : (m.afterCycles samples count).config.keyTone = false :=
        config_afterCycles samples m count ▸ silent
      rw [afterCycles_succ,
        sound_cycle_of_silent _ before (waits count (Nat.lt_succ_self count)) stillSilent,
        ih earlier, clock_afterCycles_of_waits ok earlier, Countdown.afterPolls, Nat.mul_succ,
        Nat.add_assoc]

/-- The machine as it would be had no key been seen. -/
def unpressed (m : Machine w h) : Machine w h :=
  { m with keys := ∅, latch := ∅ }

theorem wait_unpressed_afterCycles {m : Machine w h} (ok : m.isOk = true)
    (waits : m.isWaiting = true) (count : Nat) :
    (m.unpressed.afterCycles (fun _ => ∅) count).isWaiting = true := by
  obtain ⟨x, waiting⟩ := Option.isSome_iff_exists.mp waits
  have goesOn : (m.unpressed.afterCycles (fun _ => ∅) count).isOk = true ∧
      (m.unpressed.afterCycles (fun _ => ∅) count).wait = some x ∧
      (m.unpressed.afterCycles (fun _ => ∅) count).latch = ∅ := by
    induction count with
    | zero => exact ⟨ok, waiting, rfl⟩
    | succ count ih =>
        obtain ⟨before, idle, unlatched⟩ := ih
        exact ⟨(cycle_pollsOnly _ before idle).ok,
          wait_cycle_of_unreleased before idle fun _ => unlatched⟩
  exact congrArg Option.isSome goesOn.2.1

/-- While keys are held in a wait the tone sounds, with a sound timer between three and four or
what it was, and the delay timer shows what is left of its latest setting; without a key tone
the sound timer is in any wait what it would be if no key were pressed.  A machine that stopped
behind its wait, at the end of memory, looks at no keys any more. -/
theorem key_tone_exact (config : Config) (history : List Interaction)
    (samples : Nat → KeySet) (count : Nat) :
    let new : Machine w h := .new config
    let m := new.through history
    let latest := new.notes noteDelay none history
    let last := m.afterCycles samples count
    m.isOk = true → m.isWaiting = true →
      (config.keyTone = true → 0 < count → (∀ i < count, samples i ≠ ∅) →
        last.isSounding = true ∧ 3 ≤ last.sound.value.toNat ∧
          last.sound.value.toNat ≤ max 4 m.sound.value.toNat ∧
          last.isWaiting = true ∧ last.clock = m.clock + 144 * count ∧
          last.delay.value.toNat = leftOf latest last.clock) ∧
        (config.keyTone = false → (∀ i < count, (m.afterCycles samples i).isWaiting = true) →
          last.sound = (m.unpressed.afterCycles (fun _ => ∅) count).sound) := by
  intro new m latest last ok waits
  have loadable : m.Loadable config := (new_loadable config).through history
  have configured : m.config.keyTone = config.keyTone := by
    rw [loadable.configured]
    rfl
  refine ⟨?_, ?_⟩
  · intro tone some held
    obtain ⟨goesOn, high, low⟩ := tone_afterCycles_of_held ok waits (configured.trans tone) held
    have earlier := fun i early => goesOn i (Nat.le_of_lt early)
    have shows : m.delay.Shows latest m.clock := delay_shows_through history rfl
    have positive : 0 < last.sound.value.toNat := Nat.lt_of_lt_of_le (by decide) (low some)
    exact ⟨Countdown.isRunning_of_pos positive, low some, high, goesOn count (Nat.le_refl _),
      clock_afterCycles_of_waits ok earlier,
      (delay_afterCycles_of_waits ok shows earlier).value_toNat⟩
  · intro silent goesOn
    have idle : ∀ i < count, (m.unpressed.afterCycles (fun _ => ∅) i).isWaiting = true :=
      fun i _ => wait_unpressed_afterCycles ok waits i
    have unpressedOk : m.unpressed.isOk = true := ok
    have unpressedSilent : m.unpressed.config.keyTone = false := configured.trans silent
    rw [sound_afterCycles_of_silent ok (configured.trans silent) goesOn,
      sound_afterCycles_of_silent unpressedOk unpressedSilent idle]
    rfl

/-- Keys that change hands for five hundred cycles of a wait, over a sound timer that was set to
nine; and without a key tone two keys that are let go. -/
theorem key_tone_exact_of_changes :
    let program : List UInt8 := [0x63, 0x09, 0xF3, 0x18, 0xF4, 0x0A, 0x12, 0x06]
    let history : List Interaction :=
      [.act (.load program), .act (.cycle ∅), .act (.cycle ∅), .act (.cycle ∅)]
    let changing : Nat → KeySet := fun i => if i % 2 = 0 then ⟨0x0001⟩ else ⟨0x1020⟩
    let releasing : Nat → KeySet := fun i => if i < 2 then ⟨0x0021⟩ else ∅
    let m : Machine 8 4 := (new { memorySize := 0x208 }).through history
    let silent : Machine 8 4 := (new { memorySize := 0x208, keyTone := false }).through history
    m.isOk = true ∧ m.isWaiting = true ∧ (∀ i < 500, changing i ≠ ∅) ∧
      (m.afterCycles changing 500).isSounding = true ∧
      3 ≤ (m.afterCycles changing 500).sound.value.toNat ∧
      (m.afterCycles changing 500).sound.value.toNat ≤ 9 ∧
      silent.isOk = true ∧ silent.isWaiting = true ∧
      (∀ i < 3, (silent.afterCycles releasing i).isWaiting = true) ∧
      (silent.afterCycles releasing 3).sound =
        (silent.unpressed.afterCycles (fun _ => ∅) 3).sound := by
  intro program history changing releasing m silent
  have facts : m.isOk = true ∧ m.isWaiting = true ∧ m.sound.value = 9 ∧
      silent.isOk = true ∧ silent.isWaiting = true ∧
      ∀ i < 3, (silent.afterCycles releasing i).isWaiting = true := by
    decide +kernel
  have held : ∀ i < 500, changing i ≠ ∅ := by
    intro i _
    simp only [changing]
    split <;> decide
  subst silent m releasing changing history program
  obtain ⟨ok, waits, nine, silentOk, silentWaits, goesOn⟩ := facts
  have sounds := (key_tone_exact (w := 8) (h := 4) { memorySize := 0x208 } _ _ 500 ok waits).1
    rfl (by decide) held
  obtain ⟨sounding, low, high, _⟩ := sounds
  rw [nine] at high
  have rests := (key_tone_exact (w := 8) (h := 4) { memorySize := 0x208, keyTone := false } _ _ 3
    silentOk silentWaits).2 rfl goesOn
  exact ⟨ok, waits, held, sounding, low, high, silentOk, silentWaits, goesOn, rests⟩

end Machine

end Chip8
