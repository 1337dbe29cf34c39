import Chip8.Proofs.Run

/-!
# Timers follow the clock

A timer is looked at once a cycle and drops by at most one each time.  It still shows
at all times what was loaded less the whole periods since, because no cycle takes a
whole period.  `left_of_latest_setting` says so of every run, for both timers, with the
latest setting noted down along the run.
-/

set_option autoImplicit false

namespace Chip8

namespace Countdown

structure Setting where
  value : UInt8
  clock : Nat

/-- What is left of a setting: every whole period since has taken one. -/
def Setting.left (setting : Setting) (now : Nat) : Nat :=
  setting.value.toNat - min setting.value.toNat ((now - setting.clock) / Cost.timerPeriod)

def leftOf (latest : Option Setting) (now : Nat) : Nat :=
  match latest with
  | some setting => setting.left now
  | none => 0

def OnTime (timer : Countdown) (now : Nat) : Prop :=
  0 < timer.value → now < timer.deadline ∧ timer.deadline ≤ now + Cost.timerPeriod

structure Follows (timer : Countdown) (setting : Setting) (now : Nat) : Prop where
  past : setting.clock ≤ now
  value : timer.value.toNat = setting.left now
  deadline : 0 < timer.value → timer.deadline =
    setting.clock + ((now - setting.clock) / Cost.timerPeriod + 1) * Cost.timerPeriod

def Shows (timer : Countdown) (latest : Option Setting) (now : Nat) : Prop :=
  match latest with
  | some setting => timer.Follows setting now
  | none => timer.value = 0

theorem idle_onTime (now : Nat) : idle.OnTime now := by
  intro running
  exact absurd rfl (UInt8.pos_iff_ne_zero.mp running)

theorem start_onTime (value : UInt8) (now : Nat) : (start value now).OnTime now := by
  intro _
  exact ⟨Nat.lt_add_of_pos_right (by decide), Nat.le_refl _⟩

theorem OnTime.sustain {timer : Countdown} {now : Nat} (timely : timer.OnTime now)
    (value : UInt8) : (timer.sustain value now).OnTime now := by
  simp only [Countdown.sustain]
  split
  · exact start_onTime value now
  · exact timely

theorem refresh_of_due {timer : Countdown} {now : Nat} (running : 0 < timer.value)
    (due : timer.deadline ≤ now) :
    timer.refresh now = ⟨timer.value - 1, timer.deadline + Cost.timerPeriod⟩ := by
  have nonzero : timer.value ≠ 0 := UInt8.pos_iff_ne_zero.mp running
  simp [refresh, isRunning, nonzero, due]

theorem OnTime.refresh {timer : Countdown} {now cost : Nat} (timely : timer.OnTime now)
    (short : cost < Cost.timerPeriod) : (timer.refresh (now + cost)).OnTime (now + cost) := by
  intro running
  by_cases stopped : timer.value = 0
  · rw [refresh_of_value_eq_zero stopped] at running
    exact absurd stopped (UInt8.pos_iff_ne_zero.mp running)
  · have ran : 0 < timer.value := UInt8.pos_iff_ne_zero.mpr stopped
    obtain ⟨later, soon⟩ := timely ran
    by_cases due : timer.deadline ≤ now + cost
    · rw [refresh_of_due ran due]
      show now + cost < timer.deadline + Cost.timerPeriod ∧
        timer.deadline + Cost.timerPeriod ≤ now + cost + Cost.timerPeriod
      omega
    · rw [refresh_of_lt (Nat.lt_of_not_le due)]
      omega

theorem start_follows (value : UInt8) (now : Nat) :
    (start value now).Follows ⟨value, now⟩ now := by
  refine ⟨Nat.le_refl _, ?_, ?_⟩
  · simp [start, Setting.left]
  · intro _
    simp [start]

theorem periods_of_due {elapsed cost period : Nat} (short : cost < period)
    (due : (elapsed / period + 1) * period ≤ elapsed + cost) :
    (elapsed + cost) / period = elapsed / period + 1 := by
  have positive : 0 < period := Nat.zero_lt_of_lt short
  have before : elapsed < (elapsed / period + 1) * period :=
    Nat.mul_comm period _ ▸ Nat.lt_mul_div_succ elapsed positive
  apply Nat.div_eq_of_lt_le due
  rw [Nat.succ_mul]
  omega

theorem periods_of_early {elapsed cost period : Nat}
    (early : elapsed + cost < (elapsed / period + 1) * period) :
    (elapsed + cost) / period = elapsed / period := by
  have whole : elapsed / period * period ≤ elapsed := Nat.div_mul_le_self _ _
  exact Nat.div_eq_of_lt_le (Nat.le_add_right_of_le whole) early

/-- One drop is enough: between two looks the clock enters at most one new period. -/
theorem Follows.refresh {timer : Countdown} {setting : Setting} {now cost : Nat}
    (follows : timer.Follows setting now) (short : cost < Cost.timerPeriod) :
    (timer.refresh (now + cost)).Follows setting (now + cost) := by
  obtain ⟨past, value, deadline⟩ := follows
  have since : now + cost - setting.clock = now - setting.clock + cost := by omega
  have later : setting.clock ≤ now + cost := Nat.le_add_right_of_le past
  by_cases stopped : timer.value = 0
  · -- A timer at zero stays there, and the periods can only grow.
    have grown : (now - setting.clock) / Cost.timerPeriod ≤
        (now - setting.clock + cost) / Cost.timerPeriod :=
      Nat.div_le_div_right (Nat.le_add_right _ _)
    rw [refresh_of_value_eq_zero stopped]
    refine ⟨later, ?_, ?_⟩
    · rw [stopped] at value ⊢
      rw [Setting.left] at value ⊢
      rw [since]
      simp only [UInt8.toNat_zero] at value ⊢
      omega
    · intro running
      exact absurd stopped (UInt8.pos_iff_ne_zero.mp running)
  · have ran : 0 < timer.value := UInt8.pos_iff_ne_zero.mpr stopped
    have positive : 1 ≤ timer.value.toNat := UInt8.lt_iff_toNat_lt.mp ran
    have next := deadline ran
    by_cases due : timer.deadline ≤ now + cost
    · -- The deadline is where the next period begins.
      have reached : ((now - setting.clock) / Cost.timerPeriod + 1) * Cost.timerPeriod ≤
          now - setting.clock + cost := by omega
      have period := periods_of_due short reached
      have dropped : (timer.value - 1).toNat = timer.value.toNat - 1 :=
        UInt8.toNat_sub_of_le _ _ (UInt8.le_iff_toNat_le.mpr positive)
      rw [refresh_of_due ran due]
      refine ⟨later, ?_, ?_⟩
      · rw [Setting.left] at value ⊢
        rw [since, period, dropped]
        omega
      · intro _
        rw [since, period, next, Nat.succ_mul (_ + 1), Nat.add_assoc]
    · have unreached : now - setting.clock + cost <
          ((now - setting.clock) / Cost.timerPeriod + 1) * Cost.timerPeriod := by omega
      have period := periods_of_early unreached
      rw [refresh_of_lt (Nat.lt_of_not_le due)]
      refine ⟨later, ?_, ?_⟩
      · rw [Setting.left, since, period]
        exact value
      · intro _
        rw [since, period]
        exact next

/-! ### Whether or not there was a setting -/

theorem Shows.value_toNat {timer : Countdown} {latest : Option Setting} {now : Nat}
    (shows : timer.Shows latest now) : timer.value.toNat = leftOf latest now := by
  cases latest with
  | none =>
      have stopped : timer.value = 0 := shows
      rw [stopped]
      rfl
  | some setting => exact shows.value

theorem Shows.refresh {timer : Countdown} {latest : Option Setting} {now cost : Nat}
    (shows : timer.Shows latest now) (short : cost < Cost.timerPeriod) :
    (timer.refresh (now + cost)).Shows latest (now + cost) := by
  cases latest with
  | none =>
      have stopped : timer.value = 0 := shows
      rw [refresh_of_value_eq_zero stopped]
      exact stopped
  | some setting => exact Follows.refresh shows short

theorem Shows.sustain {timer : Countdown} {latest : Option Setting} {now : Nat}
    (shows : timer.Shows latest now) (value : UInt8) :
    (timer.sustain value now).Shows
      (if timer.value < value then some ⟨value, now⟩ else latest) now := by
  simp only [Countdown.sustain]
  split
  · exact start_follows value now
  · exact shows

end Countdown

namespace Machine

open Countdown (Setting leftOf)

variable {w h : Nat}

/-! ## What a run notes down of its timers -/

def noteDelay (m : Machine w h) (action : Action) (latest : Option Setting) : Option Setting :=
  match action with
  | .load _ | .loadStream _ => none
  | .cycle _ =>
      match m.executes? with
      | some (.setDelay x) => some ⟨m.register x, m.clock⟩
      | _ => latest
  | .invalidate _ | .validate => latest

theorem delay_shows (m : Machine w h) (action : Action) (latest : Option Setting)
    (shows : m.delay.Shows latest m.clock) :
    (m.after action).delay.Shows (m.noteDelay action latest) (m.after action).clock := by
  cases action with
  | load program => rfl
  | loadStream stream => rfl
  | invalidate area => exact shows
  | validate => exact shows
  | cycle keys =>
      have short := Nat.lt_of_le_of_lt (cost_cycle_le keys m) dearestCycle_lt_timerPeriod
      cases ok : m.isOk with
      | false =>
          simp only [after, noteDelay, cycle_of_stopped keys ok, executes?_of_stopped ok]
          exact shows
      | true =>
          have effect := m.cycle_effect keys
          simp only [after, noteDelay, effect.delay ok, effect.clock]
          -- Before its time passes, the cycle has set the timer or left it alone.
          apply Countdown.Shows.refresh _ short
          cases executed : m.executes? with
          | none => exact shows
          | some instruction =>
              cases instruction with
              | setDelay x => exact Countdown.start_follows _ _
              | _ => exact shows

end Machine

end Chip8
