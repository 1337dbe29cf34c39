import Chip8.Arithmetic
import Chip8.CallStack
import Chip8.Color
import Chip8.CommandLine.Argument
import Chip8.CommandLine.FileSystem
import Chip8.CommandLine.Help
import Chip8.CommandLine.Options
import Chip8.CommandLine.Plan
import Chip8.CommandLine.Reading
import Chip8.Config
import Chip8.Cost
import Chip8.Countdown
import Chip8.Fault
import Chip8.Framebuffer
import Chip8.Instruction
import Chip8.KeySchedule
import Chip8.KeySet
import Chip8.Log
import Chip8.Machine.Cycle
import Chip8.Machine.Execute
import Chip8.Machine.Load
import Chip8.Machine.Log
import Chip8.Machine.State
import Chip8.Main
import Chip8.Memory
import Chip8.Playback
import Chip8.Player
import Chip8.Player.Log
import Chip8.Proofs.Effect
import Chip8.Proofs.Outcome
import Chip8.Random
import Chip8.Rect
import Chip8.Sprite
import Chip8.Stream
import Chip8.Surface
import Chip8.Text.Blank
import Chip8.Text.ControlSequence
import Chip8.Text.Digits
import Chip8.Text.Numeral
import Chip8.Proofs.Run
import Chip8.Proofs.Timers
import Chip8.Proofs.WellFormed
import Chip8.Proofs.Marking
import Chip8.Proofs.Painting
import Chip8.Proofs.Presentation
import Chip8.Proofs.Checked.Parts
import Chip8.Proofs.Checked.Picture
import Chip8.Proofs.Checked.Cycle
import Chip8.Proofs.Safety
import Chip8.Proofs.KeyWait
import Chip8.Proofs.Reset
import Chip8.Proofs.Driving
import Chip8.Proofs.Slicing
import Chip8.Proofs.Reload
import Chip8.Proofs.Calls
import Chip8.Proofs.Budget
import Chip8.Proofs.ChangedArea
import Chip8.Proofs.HeldKeys
import Chip8.Proofs.SharedKeypad
import Chip8.Proofs.HexText
import Chip8.Proofs.ColorText
import Chip8.Proofs.Refusal
import Chip8.Proofs.Stopping
import Chip8.Proofs.FaultRecords
import Chip8.Proofs.Drawing
import Chip8.Proofs.Overlay
import Chip8.Proofs.ControlFlow
import Chip8.Proofs.FlagArithmetic
import Chip8.Proofs.Footprint
import Chip8.Proofs.Streaming
import Chip8.Proofs.BoundingBox
import Chip8.Proofs.RectAlgebra
import Chip8.Proofs.SeedSchedule
import Chip8.Proofs.BlockTransfer
import Chip8.Proofs.KeyTone
import Chip8.Proofs.Checked.Painting
import Chip8.Proofs.PaintedAreas
import Chip8.Proofs.ScheduleMap
import Chip8.Proofs.TextReading
import Chip8.Proofs.ScheduleGrammar
import Chip8.Proofs.JoinedSchedules
import Chip8.Proofs.Files
import Chip8.Proofs.WholeRun
