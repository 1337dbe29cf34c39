import Chip8.Proofs.Driving

/-!
# What a frame spends

A frame runs whole cycles until its budget is spent or the machine has stopped, so it runs
over by less than one cycle.  The dearest and the cheapest cycle bound what it can cost and
how long it can take.  The clock of a machine is the sum of what its frames have reported
since the load, and a machine that has stopped spends nothing more.
-/

set_option autoImplicit false

namespace Chip8

namespace Machine

variable {w h : Nat}

/-! ## The loop of a frame -/

theorem spendFrom_of_running {keys : KeySet} {budget spent : Nat} {m : Machine w h}
    (running : spent < budget ∧ m.isOk = true) :
    m.spendFrom keys budget spent =
      (m.cycle keys).1.spendFrom keys budget (spent + (m.cycle keys).2) := by
  rw [spendFrom, dif_pos running]

theorem spendFrom_of_resting {keys : KeySet} {budget spent : Nat} {m : Machine w h}
    (resting : ¬ (spent < budget ∧ m.isOk = true)) :
    m.spendFrom keys budget spent = (m, spent) := by
  rw [spendFrom, dif_neg resting]

/-- What is spent shows on the clock. -/
theorem clock_spendFrom (keys : KeySet) (budget spent : Nat) (m : Machine w h) :
    (m.spendFrom keys budget spent).1.clock + spent =
      m.clock + (m.spendFrom keys budget spent).2 := by
  induction spent, m using spendFrom.induct keys budget with
  | case1 spent m running done ih =>
      have clock := (m.cycle_effect keys).clock
      rw [spendFrom_of_running running]
      simp only [done] at ih
      omega
  | case2 spent m resting => rw [spendFrom_of_resting resting]

/-- A frame ends because its budget is spent or its machine has stopped. -/
theorem spendFrom_done (keys : KeySet) (budget spent : Nat) (m : Machine w h)
    (ok : (m.spendFrom keys budget spent).1.isOk = true) :
    budget ≤ (m.spendFrom keys budget spent).2 := by
  induction spent, m using spendFrom.induct keys budget with
  | case1 spent m running done ih =>
      rw [spendFrom_of_running running] at ok ⊢
      exact ih ok
  | case2 spent m resting =>
      rw [spendFrom_of_resting resting] at ok ⊢
      exact Nat.le_of_not_lt fun less => resting ⟨less, ok⟩

theorem unfinished_of_lt_cyclesToSpend (keys : KeySet) (budget spent : Nat) (m : Machine w h) :
    ∀ i < m.cyclesToSpend keys budget spent, (m.afterCycles (fun _ => keys) i).isOk = true ∧
      (m.afterCycles (fun _ => keys) i).clock + spent < m.clock + budget := by
  induction spent, m using spendFrom.induct keys budget with
  | case1 spent m running done ih =>
      intro i early
      cases i with
      | zero => exact ⟨running.2, Nat.add_lt_add_left running.1 m.clock⟩
      | succ i =>
          rw [cyclesToSpend, dif_pos running] at early
          have clock := (m.cycle_effect keys).clock
          obtain ⟨ok, short⟩ := ih i (Nat.lt_of_succ_lt_succ early)
          rw [afterCycles_succ']
          simp only [done] at ok short
          refine ⟨ok, ?_⟩
          omega
  | case2 spent m resting =>
      intro i early
      rw [cyclesToSpend, dif_neg resting] at early
      exact absurd early (Nat.not_lt_zero i)

theorem cheapestCycle_mul_le {samples : Nat → KeySet} {m : Machine w h} {count : Nat}
    (ok : ∀ i < count, (m.afterCycles samples i).isOk = true) :
    m.clock + count * cheapestCycle ≤ (m.afterCycles samples count).clock := by
  induction count with
  | zero => simp [afterCycles]
  | succ count ih =>
      have before := ih fun i earlier => ok i (Nat.lt_succ_of_lt earlier)
      have paid := cheapestCycle_le (samples count) (ok count (Nat.lt_succ_self count))
      rw [afterCycles_succ, (cycle_effect _ _).clock, Nat.succ_mul]
      omega

theorem cyclesToSpend_le (keys : KeySet) (budget : Nat) (m : Machine w h) :
    m.cyclesToSpend keys budget 0 ≤ (budget + 143) / 144 := by
  have unfinished := m.unfinished_of_lt_cyclesToSpend keys budget 0
  cases count : m.cyclesToSpend keys budget 0 with
  | zero => exact Nat.zero_le _
  | succ last =>
      -- The last cycle starts within the budget, and those before it have taken their toll.
      rw [count] at unfinished
      have paid := cheapestCycle_mul_le fun i earlier =>
        (unfinished i (Nat.lt_succ_of_lt earlier)).1
      have short := (unfinished last (Nat.lt_succ_self last)).2
      rw [cheapestCycle_eq] at paid
      omega

theorem spend_lt (keys : KeySet) {budget : Nat} (some : 0 < budget) (m : Machine w h) :
    (m.spend keys budget).2 < budget + dearestCycle := by
  have clock := m.clock_spendFrom keys budget 0
  have unfinished := m.unfinished_of_lt_cyclesToSpend keys budget 0
  rw [spendFrom_eq_afterCycles] at clock
  show (m.spendFrom keys budget 0).2 < _
  cases count : m.cyclesToSpend keys budget 0 with
  | zero =>
      rw [count] at clock
      simp only [afterCycles] at clock
      omega
  | succ last =>
      rw [count] at clock unfinished
      have short := (unfinished last (Nat.lt_succ_self last)).2
      have dear := cost_cycle_le keys (m.afterCycles (fun _ => keys) last)
      rw [afterCycles_succ, (cycle_effect _ _).clock] at clock
      omega

theorem spend_pos (keys : KeySet) {budget : Nat} (some : 0 < budget) {m : Machine w h}
    (ok : m.isOk = true) : 0 < (m.spend keys budget).2 := by
  have clock := (m.cycle keys).1.clock_spendFrom keys budget (0 + (m.cycle keys).2)
  have paid := cost_cycle_pos keys ok
  rw [spend, spendFrom_of_running ⟨some, ok⟩]
  rw [spendFrom_eq_afterCycles] at clock
  have later := clock_le_afterCycles (fun _ => keys) (m.cycle keys).1
    ((m.cycle keys).1.cyclesToSpend keys budget (0 + (m.cycle keys).2))
  omega

theorem spend_eq_zero (keys : KeySet) {budget : Nat} {m : Machine w h}
    (idle : budget = 0 ∨ m.isOk = false) : (m.spend keys budget).2 = 0 := by
  rw [spend, spendFrom_of_resting]
  rintro ⟨some, ok⟩
  rcases idle with rfl | stopped
  · exact Nat.lt_irrefl 0 some
  · exact absurd (stopped.symm.trans ok) (by simp)

end Machine

namespace Player

/-! ## One frame -/

theorem cyclesInFrame_eq (player : Player) :
    player.cyclesInFrame =
      player.machine.cyclesToSpend player.followSchedule.keypad player.budget 0 := by
  obtain ⟨keypad, followed⟩ := player.followSchedule_eq
  simp only [cyclesInFrame, followed]

theorem cycles_runFrame (player : Player) :
    player.runFrame.2.cycles =
      (player.machine.spend player.followSchedule.keypad player.budget).2 := by
  obtain ⟨keypad, followed⟩ := player.followSchedule_eq
  simp only [runFrame, spendBudget, followed]

theorem machine_runFrame_eq_spend (player : Player) :
    player.runFrame.1.machine =
      (player.machine.spend player.followSchedule.keypad player.budget).1.unmarked := by
  rw [machine_runFrame, cyclesInFrame_eq, Machine.spend, Machine.spendFrom_eq_afterCycles]

theorem clock_runFrame (player : Player) :
    player.runFrame.1.machine.clock = player.machine.clock + player.runFrame.2.cycles := by
  rw [machine_runFrame_eq_spend, cycles_runFrame]
  exact player.machine.clock_spendFrom _ _ 0

/-- When a frame ends and what it has spent by then, a cycle costing 144 clocks at least and
24944 at most. -/
structure KeepsBudget (budget : Nat) (player : Player) : Prop where
  machine : player.runFrame.1.machine =
    (player.machine.afterCycles (fun _ => player.followSchedule.keypad)
      player.cyclesInFrame).unmarked
  few : player.cyclesInFrame ≤ (budget + 143) / 144
  unfinished : ∀ i < player.cyclesInFrame,
    let now := player.machine.afterCycles (fun _ => player.followSchedule.keypad) i
    now.isOk = true ∧ now.clock < player.machine.clock + budget
  finished : player.runFrame.2.fault = none → budget ≤ player.runFrame.2.cycles
  clock : player.runFrame.1.machine.clock = player.machine.clock + player.runFrame.2.cycles
  idle : budget = 0 ∨ player.machine.isOk = false → player.runFrame.2.cycles = 0
  busy : 0 < budget → player.machine.isOk = true →
    0 < player.runFrame.2.cycles ∧ player.runFrame.2.cycles < budget + 24944

theorem keepsBudget (player : Player) : player.KeepsBudget player.budget := by
  constructor
  · exact player.machine_runFrame
  · rw [cyclesInFrame_eq]
    exact player.machine.cyclesToSpend_le _ _
  · intro i early
    rw [cyclesInFrame_eq] at early
    exact player.machine.unfinished_of_lt_cyclesToSpend _ _ 0 i early
  · intro unfaulted
    have ok : player.runFrame.1.machine.isOk = true := Option.isNone_iff_eq_none.mpr unfaulted
    rw [machine_runFrame_eq_spend] at ok
    rw [cycles_runFrame]
    exact player.machine.spendFrom_done _ _ 0 ok
  · exact player.clock_runFrame
  · intro idle
    rw [cycles_runFrame]
    exact Machine.spend_eq_zero _ idle
  · intro some ok
    rw [cycles_runFrame, ← Machine.dearestCycle_eq]
    exact ⟨Machine.spend_pos _ some ok, Machine.spend_lt _ some _⟩

/-! ## Frame after frame -/

def Action.isLoad : Action → Bool
  | .load _ => true
  | .touch _ | .frame => false

def reports (player : Player) : List Action → List FrameReport
  | [] => []
  | .frame :: later => player.runFrame.2 :: player.runFrame.1.reports later
  | action :: later => (player.after action).reports later

/-- Without a load, frames are numbered on and the clock goes on by what they report. -/
theorem afterAll_reports (later : List Action) (player : Player)
    (going : ∀ action ∈ later, action.isLoad = false) :
    (player.afterAll later).machine.clock =
        player.machine.clock + ((player.reports later).map FrameReport.cycles).sum ∧
      (player.reports later).map FrameReport.frame =
        List.range' player.frame (player.reports later).length := by
  induction later generalizing player with
  | nil => exact ⟨rfl, rfl⟩
  | cons action rest ih =>
      obtain ⟨first, restGoing⟩ := List.forall_mem_cons.mp going
      cases action with
      | load program => cases first
      | touch event => exact ih _ restGoing
      | frame =>
          obtain ⟨clock, frames⟩ := ih player.runFrame.1 restGoing
          have spent := player.clock_runFrame
          have counted : player.runFrame.1.frame = player.frame + 1 := rfl
          constructor
          · show (player.runFrame.1.afterAll rest).machine.clock = _
            rw [clock, spent, reports, List.map_cons, List.sum_cons, Nat.add_assoc]
          · rw [reports, List.map_cons, frames, counted, List.length_cons, List.range'_succ]
            rfl

/-! ## After a fault -/

/-- A player whose machine has stopped and has been shown. -/
structure Rests (player : Player) : Prop where
  stopped : player.machine.isOk = false
  shown : player.machine.screen.dirty = none

theorem runFrame_rests {player : Player} {fault : Fault}
    (faulted : player.runFrame.2.fault = some fault) : player.runFrame.1.Rests := by
  constructor
  · show Option.isNone _ = false
    have same : player.runFrame.1.machine.fault = some fault := faulted
    rw [same]
    rfl
  · exact dirty_present _

theorem Rests.runFrame {player : Player} (rests : player.Rests) :
    ∃ keypad, player.runFrame =
      ({ player with keypad, frame := player.frame + 1 },
        { frame := player.frame
          cycles := 0
          sounding := player.machine.isSounding
          presented := none
          fault := player.machine.fault }) := by
  obtain ⟨keypad, followed⟩ := player.followSchedule_eq
  have resting : ¬ (0 < player.budget ∧ player.machine.isOk = true) := by
    rintro ⟨_, ok⟩
    exact absurd (rests.stopped.symm.trans ok) (by simp)
  have still : player.machine.spend keypad player.budget = (player.machine, 0) :=
    Machine.spendFrom_of_resting resting
  refine ⟨keypad, ?_⟩
  simp only [Player.runFrame, spendBudget, followed, still, present, rests.shown]

/-- A player at rest changes its keypad and its frame count only, and its frames have nothing
new to report. -/
theorem Rests.afterAll (later : List Action) {player : Player} (rests : player.Rests)
    (going : ∀ action ∈ later, action.isLoad = false) :
    (∃ keypad frame, player.afterAll later = { player with keypad, frame }) ∧
      ∀ report ∈ player.reports later, report.cycles = 0 ∧
        report.sounding = player.machine.isSounding ∧ report.presented = none ∧
        report.fault = player.machine.fault := by
  induction later generalizing player with
  | nil => exact ⟨⟨_, _, rfl⟩, by simp [reports]⟩
  | cons action rest ih =>
      obtain ⟨first, restGoing⟩ := List.forall_mem_cons.mp going
      cases action with
      | load program => cases first
      | touch event =>
          have touched : (player.touch event).Rests := ⟨rests.stopped, rests.shown⟩
          exact ih touched restGoing
      | frame =>
          obtain ⟨keypad, played⟩ := rests.runFrame
          have after : player.runFrame.1.Rests := by
            rw [played]
            exact ⟨rests.stopped, rests.shown⟩
          obtain ⟨same, silent⟩ := ih after restGoing
          rw [played] at same silent
          refine ⟨?_, ?_⟩
          · show ∃ keypad frame, player.runFrame.1.afterAll rest = _
            rw [played]
            exact same
          · intro report listed
            rw [reports, played] at listed
            rcases List.mem_cons.mp listed with rfl | later
            · exact ⟨rfl, rfl, rfl, rfl⟩
            · exact silent report later

/-- However a player has come to where it is since its latest load, its next frame keeps the
budget; the clock is the sum of what the frames since the load have reported, and these are
numbered from zero; and once a frame reports a fault, all that is left to move until the next
load is the keypad and the frame count, and all frames report the same fault, the same tone
and nothing else. -/
theorem frames_keep_account (config : Config) (settings : PlayerSettings)
    (history : List Action) (program : List UInt8) (since : List Action)
    (going : ∀ action ∈ since, action.isLoad = false) :
    let loaded := (((Player.new config settings).afterAll history).load program).1
    let player := loaded.afterAll since
    let frame := player.runFrame
    player.KeepsBudget settings.budget ∧
      player.machine.clock = ((loaded.reports since).map FrameReport.cycles).sum ∧
      (loaded.reports since).map FrameReport.frame = List.range (loaded.reports since).length ∧
      ∀ fault, frame.2.fault = some fault → ∀ later : List Action,
        (∀ action ∈ later, action.isLoad = false) →
          (∃ keypad count, frame.1.afterAll later = { frame.1 with keypad, frame := count }) ∧
            ∀ report ∈ frame.1.reports later, report.cycles = 0 ∧ report.fault = some fault ∧
              report.sounding = frame.2.sounding ∧ report.presented = none := by
  intro loaded player frame
  have setUp : player.SetUp settings :=
    (((new_setUp config settings).afterAll history).after (.load program)).afterAll since
  obtain ⟨clock, frames⟩ := loaded.afterAll_reports since going
  refine ⟨?_, ?_, ?_, ?_⟩
  · rw [← setUp.budget]
    exact player.keepsBudget
  · rw [clock]
    exact Nat.zero_add _
  · rw [frames, List.range_eq_range']
    rfl
  · intro fault faulted later goingOn
    obtain ⟨still, silent⟩ := (runFrame_rests faulted).afterAll later goingOn
    refine ⟨still, ?_⟩
    intro report listed
    obtain ⟨cycles, sounding, presented, same⟩ := silent report listed
    exact ⟨cycles, same.trans faulted, sounding, presented⟩

/-- A frame that runs over its budget, one that ends in an empty return, and what follows it. -/
theorem frames_keep_account_of_underflow :
    let player := ((Player.new { memorySize := 0x204 } { budget := 300 }).load
      [0x60, 0x01, 0x00, 0xEE]).1.afterAll [.frame]
    player.runFrame.2.fault = some .stackUnderflow ∧ player.machine.clock = 368 ∧
      ∀ report ∈ player.runFrame.1.reports [.frame, .touch (.press 3), .frame],
        report.cycles = 0 ∧ report.fault = some .stackUnderflow ∧
          report.sounding = player.runFrame.2.sounding ∧ report.presented = none := by
  intro player
  have facts : player.runFrame.2.fault = some .stackUnderflow ∧ player.machine.clock = 368 := by
    decide +kernel
  have going : ∀ action ∈ [Action.frame], action.isLoad = false := by decide
  have goingOn : ∀ action ∈ [Action.frame, .touch (.press 3), .frame],
      action.isLoad = false := by decide
  have account := frames_keep_account { memorySize := 0x204 } { budget := 300 } []
    [0x60, 0x01, 0x00, 0xEE] [.frame] going
  have rest := account.2.2.2 .stackUnderflow facts.1 _ goingOn
  exact ⟨facts.1, facts.2, rest.2⟩

end Player

end Chip8
