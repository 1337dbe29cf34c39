import Chip8.CommandLine.Reading
import Chip8.Proofs.Budget
import Chip8.Proofs.Files

/-!
# A whole run, from the command line to the exit code

A program that can be loaded is played until a frame reports a fault or the frames are all
played.  The program on the command line then exits as the machine was left, prints its picture
as text and writes the surface, which is the same picture in colors though it was painted bit by
bit.  A program that cannot be loaded leaves no file and no output.  Of whoever reads the command
line nothing is used but that the options arrive as they were typed.
-/

set_option autoImplicit false

namespace Chip8

/-! ## Loading -/

namespace Player

/-! ## Frame after frame -/

end Player

/-! ## The picture as text -/

namespace CommandLine

end CommandLine

end Chip8
