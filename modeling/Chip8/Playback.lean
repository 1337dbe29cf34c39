import Chip8.Player.Log

/-!
# Playing a program

A whole run without anyone watching: a new player loads a program and plays frames
until it has played as many as it was told to or its machine stops.
-/

set_option autoImplicit false

namespace Chip8

namespace Player

/-- Play up to `count` more frames, none after one that ends in a fault.  The tone
frames are counted on from `toneFrames`. -/
def playFrom (toneFrames : Nat) : Nat → Player → Player × Nat
  | 0, player => (player, toneFrames)
  | count + 1, player =>
      let (player, report) := player.runFrame
      let toneFrames := if report.sounding then toneFrames + 1 else toneFrames
      if report.fault.isSome then (player, toneFrames) else playFrom toneFrames count player

end Player

structure LoadFailure where
  length : Nat
  fault : Fault
  deriving DecidableEq

def LoadFailure.context (failure : LoadFailure) : String :=
  "failed to load " ++ failure.length.repr ++ " byte program"

def LoadFailure.message (failure : LoadFailure) : String :=
  failure.context ++ ": " ++ failure.fault.message

/-- Play a program.  The answer is the player at the end, also when its machine has
stopped; only a program that cannot be loaded is a failure. -/
def play (program : List UInt8) (config : Config) (settings : PlayerSettings) :
    Except LoadFailure Player :=
  let (player, outcome) := (Player.new config settings).load program
  match outcome with
  | .error fault => .error ⟨program.length, fault⟩
  | .ok () => .ok (player.playFrom 0 settings.frames).1

theorem play_eq_error_iff {program : List UInt8} {config : Config} {settings : PlayerSettings}
    {failure : LoadFailure} : play program config settings = .error failure ↔
      failure.length = program.length ∧
        ((Player.new config settings).load program).2 = .error failure.fault := by
  cases outcome : ((Player.new config settings).load program).2 with
  | error fault =>
      simp only [play, outcome, Except.error.injEq]
      constructor
      · rintro rfl
        exact ⟨rfl, rfl⟩
      · rintro ⟨length, rfl⟩
        rw [← length]
  | ok => simp [play, outcome]

theorem play_eq_ok_iff {program : List UInt8} {config : Config} {settings : PlayerSettings}
    {last : Player} : play program config settings = .ok last ↔
      ((Player.new config settings).load program).2 = .ok () ∧
        last = (((Player.new config settings).load program).1.playFrom 0 settings.frames).1 := by
  cases outcome : ((Player.new config settings).load program).2 with
  | error fault => simp [play, outcome]
  | ok => simp [play, outcome, eq_comm]

/-! ## What is reported -/

namespace Player

def playLog (listening : Level) : Nat → Player → Array Record → Array Record
  | 0, _, heard => heard
  | count + 1, player, heard =>
      let heard := player.frameLog listening heard
      let (player, report) := player.runFrame
      match report.fault with
      | some fault =>
          heard ++ [Record.playStopped report.frame fault].filter (listening.hears ·.level)
      | none => playLog listening count player heard

end Player

def playLog (listening : Level) (program : List UInt8) (config : Config)
    (settings : PlayerSettings) : Array Record :=
  let fresh := Player.new config settings
  let (player, outcome) := fresh.load program
  let loading := Player.newLog config ++ fresh.loadLog program
  let heard := (loading.filter (listening.hears ·.level)).toArray
  match outcome with
  | .error _ => heard
  | .ok () =>
    let (last, toneFrames) := player.playFrom 0 settings.frames
    let overrun := match settings.schedule.lastFrame? with
      | some frame => if settings.frames ≤ frame then [Record.scheduleTooLong frame] else []
      | none => []
    let opening := overrun ++ [.playStarted settings.frames settings.budget]
    let closing := [Record.playFinished last.frame last.machine.clock toneFrames]
    player.playLog listening settings.frames
      (heard ++ opening.filter (listening.hears ·.level)) ++
        closing.filter (listening.hears ·.level)

end Chip8
