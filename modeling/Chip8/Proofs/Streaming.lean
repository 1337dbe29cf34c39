import Chip8.Proofs.Reset

/-!
# Loading from a stream

However a stream is cut into pieces, interrupted and broken off, a load from it comes to a load
of the bytes that it delivers, or of as many of them as show that they are too many.  Nor does
it matter into what buffers they are read: a read takes of a piece what there is room for, and
the next read goes on where it stopped.
-/

set_option autoImplicit false

namespace Chip8

namespace Stream

/-- The bytes that arrive before a stream ends or fails. -/
def delivered : Stream → List UInt8
  | [] => []
  | .interrupted :: stream => delivered stream
  | .failed _ :: _ => []
  | .bytes [] :: _ => []
  | .bytes (first :: rest) :: stream => first :: rest ++ delivered stream

def failure? : Stream → Option String
  | [] => none
  | .interrupted :: stream => failure? stream
  | .failed reason :: _ => some reason
  | .bytes [] :: _ => none
  | .bytes (_ :: _) :: stream => failure? stream

/-- All the bytes in a stream, also those after its end. -/
def content : Stream → List UInt8
  | [] => []
  | .bytes piece :: stream => piece ++ content stream
  | .interrupted :: stream | .failed _ :: stream => content stream

def putBack : List UInt8 → Stream → Stream
  | [], stream => stream
  | first :: rest, stream => .bytes (first :: rest) :: stream

/-- Reading up to a limit, read by read, each into a buffer of any room: what it comes to, and
the stream that is left. -/
inductive Reads : Nat → Stream → Reading → Stream → Prop where
  | full (stream : Stream) : Reads 0 stream ⟨[], none⟩ stream
  | exhausted (limit : Nat) : Reads limit [] ⟨[], none⟩ []
  | ended (limit : Nat) (stream : Stream) :
      Reads (limit + 1) (.bytes [] :: stream) ⟨[], none⟩ stream
  | failed (limit : Nat) (reason : String) (stream : Stream) :
      Reads (limit + 1) (.failed reason :: stream) ⟨[], some reason⟩ stream
  | interrupted {limit : Nat} {stream left : Stream} {reading : Reading}
      (again : Reads (limit + 1) stream reading left) :
      Reads (limit + 1) (.interrupted :: stream) reading left
  | some {limit room : Nat} {piece : List UInt8} {stream left : Stream} {reading : Reading}
      (nonempty : piece ≠ []) (roomy : 0 < room) (within : room ≤ limit)
      (later : Reads (limit - (piece.take room).length) (putBack (piece.drop room) stream)
        reading left) :
      Reads limit (.bytes piece :: stream) ⟨piece.take room ++ reading.bytes, reading.failure⟩ left

/-- A read with room for one byte. -/
theorem Reads.byte {limit : Nat} {first : UInt8} {rest bytes : List UInt8}
    {failure : Option String} {stream left : Stream}
    (later : Reads limit (putBack rest stream) ⟨bytes, failure⟩ left) :
    Reads (limit + 1) (.bytes (first :: rest) :: stream) ⟨first :: bytes, failure⟩ left :=
  .some (List.cons_ne_nil _ _) Nat.one_pos (Nat.le_add_left 1 limit) later

theorem delivered_bytes {piece : List UInt8} (nonempty : piece ≠ []) (stream : Stream) :
    delivered (.bytes piece :: stream) = piece ++ stream.delivered := by
  cases piece with
  | nil => exact absurd rfl nonempty
  | cons first rest => rfl

theorem failure?_bytes {piece : List UInt8} (nonempty : piece ≠ []) (stream : Stream) :
    failure? (.bytes piece :: stream) = stream.failure? := by
  cases piece with
  | nil => exact absurd rfl nonempty
  | cons first rest => rfl

theorem delivered_putBack (rest : List UInt8) (stream : Stream) :
    (putBack rest stream).delivered = rest ++ stream.delivered := by
  cases rest <;> rfl

theorem failure?_putBack (rest : List UInt8) (stream : Stream) :
    (putBack rest stream).failure? = stream.failure? := by
  cases rest <;> rfl

theorem content_putBack (rest : List UInt8) (stream : Stream) :
    (putBack rest stream).content = rest ++ stream.content := by
  cases rest <;> rfl

/-- A stream that goes on delivers no less. -/
theorem exists_delivered_append (stream later : Stream) :
    ∃ more, (stream ++ later).delivered = stream.delivered ++ more := by
  fun_induction delivered stream with
  | case1 => exact ⟨later.delivered, rfl⟩
  | case2 stream ih => exact ih
  | case3 reason stream | case4 stream => exact ⟨[], rfl⟩
  | case5 first rest stream ih =>
      obtain ⟨more, goesOn⟩ := ih
      refine ⟨more, ?_⟩
      rw [List.cons_append, delivered, goesOn, List.append_assoc]

/-- What reading up to a limit comes to, told from what the stream delivers: a failure counts
only if the limit is not reached before. -/
def upTo (limit : Nat) (stream : Stream) : Reading :=
  ⟨stream.delivered.take limit,
    if stream.delivered.length < limit then stream.failure? else none⟩

theorem upTo_bytes {piece : List UInt8} (nonempty : piece ≠ []) (limit room : Nat)
    (stream : Stream) (within : room ≤ limit) :
    upTo limit (.bytes piece :: stream) =
      ⟨piece.take room ++
          (upTo (limit - (piece.take room).length) (putBack (piece.drop room) stream)).bytes,
        (upTo (limit - (piece.take room).length) (putBack (piece.drop room) stream)).failure⟩ := by
  have short : (piece.take room).length ≤ limit := by
    rw [List.length_take]
    omega
  have whole : piece.take room ++ (piece.drop room ++ stream.delivered) =
      piece ++ stream.delivered := by
    rw [← List.append_assoc, List.take_append_drop]
  have count : (piece ++ stream.delivered).length =
      (piece.take room).length + (piece.drop room ++ stream.delivered).length := by
    rw [← whole, List.length_append]
  simp only [upTo, delivered_bytes nonempty, failure?_bytes nonempty, delivered_putBack,
    failure?_putBack]
  congr 1
  · rw [← whole, List.take_append, List.take_of_length_le short]
  · have same : (piece ++ stream.delivered).length < limit ↔
        (piece.drop room ++ stream.delivered).length < limit - (piece.take room).length := by
      omega
    simp only [same]

theorem upTo_of_empty {stream : Stream} (nothing : stream.delivered = [])
    (unbroken : stream.failure? = none) (limit : Nat) : stream.upTo limit = ⟨[], none⟩ := by
  rw [upTo, nothing, unbroken, ite_self, List.take_nil]

/-- Whatever room the buffers have, the same bytes are read. -/
theorem Reads.eq_upTo {limit : Nat} {stream left : Stream} {reading : Reading}
    (reads : Reads limit stream reading left) : reading = stream.upTo limit := by
  induction reads with
  | full stream => simp [upTo]
  | exhausted limit | ended limit stream => exact (upTo_of_empty rfl rfl _).symm
  | failed limit reason stream => simp [upTo, delivered, failure?]
  | interrupted again ih => exact ih
  | some nonempty roomy within later ih => rw [upTo_bytes nonempty _ _ _ within, ← ih]

/-- No byte is lost: what was not read is left. -/
theorem Reads.content_eq {limit : Nat} {stream left : Stream} {reading : Reading}
    (reads : Reads limit stream reading left) :
    stream.content = reading.bytes ++ left.content := by
  induction reads with
  | full stream | exhausted limit | ended limit stream | failed limit reason stream => rfl
  | interrupted again ih => exact ih
  | @some limit room piece stream left reading nonempty roomy within later ih =>
      rw [content_putBack] at ih
      rw [content, List.append_assoc, ← ih, ← List.append_assoc, List.take_append_drop]

theorem readUpTo_zero (stream : Stream) : stream.readUpTo 0 = ⟨[], none⟩ := by
  cases stream <;> rfl

/-- Every stream can be read, and the buffers of one that has room for all of the limit make
`readUpTo`. -/
theorem reads_readUpTo (limit : Nat) (stream : Stream) :
    ∃ left, Reads limit stream (stream.readUpTo limit) left := by
  induction stream generalizing limit with
  | nil => exact ⟨_, .exhausted limit⟩
  | cons delivery stream ih =>
      cases limit with
      | zero => exact ⟨_, .full _⟩
      | succ limit =>
          cases delivery with
          | interrupted =>
              obtain ⟨left, reads⟩ := ih (limit + 1)
              exact ⟨left, .interrupted reads⟩
          | failed reason => exact ⟨stream, .failed limit reason stream⟩
          | bytes piece =>
              cases piece with
              | nil => exact ⟨stream, .ended limit stream⟩
              | cons first rest =>
                  -- With room for the whole limit either the piece fits or the limit is reached.
                  have later : ∃ left,
                      Reads (limit + 1 - ((first :: rest).take (limit + 1)).length)
                        (putBack ((first :: rest).drop (limit + 1)) stream)
                        (readUpTo (limit - rest.length) stream) left := by
                    rw [List.take_succ_cons, List.drop_succ_cons, List.length_cons,
                      Nat.add_sub_add_right, List.length_take]
                    by_cases fits : rest.length ≤ limit
                    · rw [List.drop_of_length_le fits, Nat.min_eq_right fits]
                      exact ih _
                    · have least := Nat.le_of_not_le fits
                      rw [Nat.min_eq_left least, Nat.sub_self, Nat.sub_eq_zero_of_le least,
                        readUpTo_zero]
                      exact ⟨_, .full _⟩
                  obtain ⟨left, reads⟩ := later
                  exact ⟨left, .some (List.cons_ne_nil _ _) (Nat.succ_pos limit) (Nat.le_refl _)
                    reads⟩

theorem readUpTo_eq_upTo (limit : Nat) (stream : Stream) :
    stream.readUpTo limit = stream.upTo limit := by
  obtain ⟨left, reads⟩ := reads_readUpTo limit stream
  exact reads.eq_upTo

theorem delivered_piecewise {size : Nat} (nonzero : 0 < size) (interrupts : Bool) {fuel : Nat}
    {data : List UInt8} (enough : data.length ≤ fuel) :
    (piecewise size interrupts fuel data).delivered = data := by
  induction fuel generalizing data with
  | zero =>
      obtain rfl : data = [] := List.eq_nil_of_length_eq_zero (Nat.le_zero.mp enough)
      cases interrupts <;> rfl
  | succ fuel ih =>
      cases data with
      | nil => cases interrupts <;> rfl
      | cons first rest =>
          have fewer : ((first :: rest).drop size).length ≤ fuel := by
            rw [List.length_drop]
            omega
          have taken : (first :: rest).take size ≠ [] := by
            simp [Nat.ne_of_gt nonzero]
          have pieces : delivered (.bytes ((first :: rest).take size) ::
              piecewise size interrupts fuel ((first :: rest).drop size)) = first :: rest := by
            rw [delivered_bytes taken, ih fewer, List.take_append_drop]
          cases interrupts <;> exact pieces

end Stream

theorem loadRefusal?_eq_programTooLarge {capacity : Nat} (room : 1 ≤ capacity)
    (program : List UInt8) :
    loadRefusal? capacity program = some .programTooLarge ↔ capacity < program.length := by
  rw [loadRefusal?]
  grind

theorem loadOutcome_eq_programTooLarge {capacity : Nat} (room : 1 ≤ capacity)
    (program : List UInt8) :
    loadOutcome capacity program = .error .programTooLarge ↔ capacity < program.length :=
  loadOutcome_eq_error_iff.trans (loadRefusal?_eq_programTooLarge room program)

namespace Machine

variable {w h : Nat}

theorem loadStream_eq_load {m : Machine w h} (size : m.memory.size = m.config.memorySize)
    (stream : Stream) :
    m.loadStream stream = m.load (stream.delivered.take (m.capacity + 1)) := by
  rw [loadStream, reading, Stream.readUpTo_eq_upTo, capacity, size]
  rfl

/-- One byte more than fits is as good as all the rest. -/
theorem load_take {m : Machine w h} (size : m.memory.size = m.config.memorySize)
    (room : 1 ≤ m.capacity) (program : List UInt8) :
    m.load (program.take (m.capacity + 1)) = m.load program := by
  by_cases fits : program.length ≤ m.capacity
  · rw [List.take_of_length_le (Nat.le_succ_of_le fits)]
  · have tooLarge := Nat.lt_of_not_le fits
    have stillTooLarge : m.capacity < (program.take (m.capacity + 1)).length := by
      rw [List.length_take]
      omega
    have refusal := (loadRefusal?_eq_programTooLarge room _).mpr tooLarge
    have sameRefusal := (loadRefusal?_eq_programTooLarge room _).mpr stillTooLarge
    rw [capacity, size] at refusal sameRefusal
    simp only [load, loadOutcome, boot, capacity, size, refusal, sameRefusal, Option.isNone_some,
      Bool.false_eq_true, if_false]

theorem size_through (config : Config) (history : List Interaction) :
    ((new config : Machine w h).through history).memory.size =
      ((new config : Machine w h).through history).config.memorySize :=
  ((new_wellFormed config).through history).size

theorem capacity_through (config : Config) (history : List Interaction) :
    2 ≤ ((new config : Machine w h).through history).capacity := by
  have wellFormed : ((new config : Machine w h).through history).WellFormed :=
    (new_wellFormed config).through history
  rw [capacity, wellFormed.size]
  exact Nat.le_sub_of_add_le wellFormed.least

/-- A program that comes in pieces of any size, with or without interruptions, is loaded as if
it had come in one. -/
theorem loadStream_ofPieces (config : Config) (history : List Interaction) {size : Nat}
    (nonzero : 0 < size) (interrupts : Bool) (program : List UInt8) :
    let m : Machine w h := (new config).through history
    m.loadStream (.ofPieces size interrupts program) = m.load program := by
  intro m
  have room : 2 ≤ m.capacity := capacity_through config history
  rw [loadStream_eq_load (size_through config history), Stream.ofPieces,
    Stream.delivered_piecewise nonzero interrupts (Nat.le_refl _),
    load_take (size_through config history) (Nat.le_of_succ_le room)]

/-- A load from a stream is a load of what the stream delivers, cut off after the first byte
that is too much, in its answer and in the machine it leaves.  It reads exactly these bytes, whatever buffers it reads into, and nothing
but the bytes delivered has any influence on the outcome. -/
theorem loadStream_exact (config : Config) (history : List Interaction) (stream : Stream) :
    let m : Machine w h := (new config).through history
    let program := stream.delivered.take (m.capacity + 1)
    m.loadStream stream = m.load program ∧
      ((m.loadStream stream).2 = .error .programTooLarge ↔
        m.capacity < stream.delivered.length) ∧
      ((m.loadStream stream).1.fault = some .programTooLarge ↔
        m.capacity < stream.delivered.length) ∧
      (∃ left, stream.Reads (m.capacity + 1) (m.reading stream) left) ∧
      (∀ reading left, stream.Reads (m.capacity + 1) reading left →
        reading = m.reading stream ∧ reading.bytes = program ∧
          stream.content = program ++ left.content) ∧
      (∀ other : Stream, other.delivered = stream.delivered →
        m.loadStream other = m.loadStream stream) ∧
      (m.capacity < stream.delivered.length →
        ∀ later : Stream, m.loadStream (stream ++ later) = m.loadStream stream) := by
  intro m program
  have size : m.memory.size = m.config.memorySize := size_through config history
  have room : 2 ≤ m.capacity := capacity_through config history
  have loaded : m.loadStream stream = m.load program := loadStream_eq_load size stream
  have read : m.reading stream = stream.readUpTo (m.capacity + 1) := by
    rw [reading, capacity, size]
  have outcome : (m.loadStream stream).2 = .error .programTooLarge ↔
      m.capacity < stream.delivered.length := by
    have answered : (m.loadStream stream).2 = loadOutcome m.capacity program := by
      rw [loaded, capacity, size]
      rfl
    have long : m.capacity < program.length ↔ m.capacity < stream.delivered.length := by
      rw [List.length_take]
      omega
    rw [answered, loadOutcome_eq_programTooLarge (Nat.le_of_succ_le room), long]
  refine ⟨loaded, outcome, load_eq_error_iff.symm.trans outcome, ?_, ?_, ?_, ?_⟩
  · rw [read]
    exact Stream.reads_readUpTo _ stream
  · intro reading left reads
    have bytes : reading.bytes = program := by rw [reads.eq_upTo]; rfl
    refine ⟨?_, bytes, ?_⟩
    · rw [read, Stream.readUpTo_eq_upTo, reads.eq_upTo]
    · rw [reads.content_eq, bytes]
  · intro other same
    rw [loaded, loadStream_eq_load size, same]
  · intro tooLarge later
    obtain ⟨more, goesOn⟩ := stream.exists_delivered_append later
    rw [loaded, loadStream_eq_load size, goesOn, List.take_append_of_le_length tooLarge]

/-- A stream that interrupts the second read and would fail after the fourth byte, read byte by
byte for a program of two bytes at most. -/
theorem loadStream_exact_of_tooLarge :
    let m : Machine 8 4 := (new { memorySize := 0x202 }).through
      [.act (.load [0x12, 0x00]), .act (.cycle ∅)]
    let stream : Stream := [.bytes [0x12], .interrupted, .bytes [0x00, 0x07, 0x09], .failed "gone"]
    m.capacity = 2 ∧ (m.loadStream stream).2 = .error .programTooLarge ∧
      (m.loadStream stream).1.fault = some .programTooLarge ∧
      (m.reading stream).failure = none ∧
      ∃ left, stream.Reads 3 (m.reading stream) left ∧ left.content = [0x09] := by
  intro m stream
  have capacity : m.capacity = 2 := by decide +kernel
  have byByte : stream.Reads 3 ⟨[0x12, 0x00, 0x07], none⟩ [.bytes [0x09], .failed "gone"] :=
    .byte (.interrupted (.byte (.byte (.full _))))
  subst m stream
  obtain ⟨_, tooLarge, recorded, _, determined, _⟩ := loadStream_exact (w := 8) (h := 4)
    { memorySize := 0x202 } [.act (.load [0x12, 0x00]), .act (.cycle ∅)]
    [.bytes [0x12], .interrupted, .bytes [0x00, 0x07, 0x09], .failed "gone"]
  rw [capacity] at tooLarge recorded determined
  have read := (determined _ _ byByte).1
  exact ⟨capacity, tooLarge.mpr (by decide), recorded.mpr (by decide), read ▸ rfl, _,
    read ▸ byByte, rfl⟩

end Machine

end Chip8
