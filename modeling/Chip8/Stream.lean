import Chip8.Machine.Log

/-!
# Loading from a byte stream

A stream hands out bytes in pieces.  A piece without bytes is its end.  A read may be
interrupted, which only means to read again, or fail, which ends the stream too.  A
load reads no more of a stream than shows that the program is too large, and takes what
it has read for the program, also when the stream broke off.
-/

set_option autoImplicit false

namespace Chip8

inductive Delivery where
  /-- The next bytes; if there are none, the stream has ended. -/
  | bytes (piece : List UInt8)
  | interrupted
  | failed (reason : String)
  deriving DecidableEq

/-- The reads that a stream answers before its end. -/
abbrev Stream := List Delivery

namespace Stream

/-- The bytes read, and the reason if the stream failed before the limit. -/
structure Reading where
  bytes : List UInt8
  failure : Option String
  deriving DecidableEq

def readUpTo : Nat → Stream → Reading
  | _, [] => ⟨[], none⟩
  | 0, _ => ⟨[], none⟩
  | limit + 1, .interrupted :: stream => readUpTo (limit + 1) stream
  | _ + 1, .failed reason :: _ => ⟨[], some reason⟩
  | _ + 1, .bytes [] :: _ => ⟨[], none⟩
  | limit + 1, .bytes (first :: rest) :: stream =>
      let piece := (first :: rest).take (limit + 1)
      let reading := readUpTo (limit - rest.length) stream
      ⟨piece ++ reading.bytes, reading.failure⟩

/-- A stream over `data` in pieces of at most `size` bytes, each read of which is
interrupted first if `interrupts` says so.  The fuel is the number of bytes. -/
def piecewise (size : Nat) (interrupts : Bool) : Nat → List UInt8 → Stream
  | fuel + 1, first :: rest =>
      let data := first :: rest
      let later := .bytes (data.take size) :: piecewise size interrupts fuel (data.drop size)
      if interrupts then .interrupted :: later else later
  | _, _ => if interrupts then [.interrupted] else []

/-- A stream over `data` in pieces of at most `size` bytes.  Pieces of no bytes bring
nothing of the data. -/
def ofPieces (size : Nat) (interrupts : Bool) (data : List UInt8) : Stream :=
  piecewise size interrupts data.length data

theorem readUpTo_bytes_nil (limit : Nat) (stream : Stream) :
    readUpTo limit (.bytes [] :: stream) = ⟨[], none⟩ := by
  cases limit <;> rfl

end Stream

namespace Machine

variable {w h : Nat}

/-- The part of a stream that a load reads: one byte more than a program may have. -/
def reading (stream : Stream) (m : Machine w h) : Stream.Reading :=
  stream.readUpTo (Memory.capacityOf m.config.memorySize + 1)

def loadStream (stream : Stream) (m : Machine w h) : Machine w h × Except Fault Unit :=
  m.load (m.reading stream).bytes

def loadStreamLog (stream : Stream) (m : Machine w h) : List Record :=
  let reading := m.reading stream
  (match reading.failure with
    | some reason => [.streamFailed reading.bytes.length reason]
    | none => []) ++ m.loadLog reading.bytes

end Machine

end Chip8
