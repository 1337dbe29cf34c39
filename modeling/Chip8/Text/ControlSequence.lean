/-!
# Control sequences

Text as it is left when the control characters of a terminal are taken out, and with
them the sequences that an escape character begins.  A sequence has a form for each
purpose: a command ends at its first letter, a title at a bell, another string of data
at the byte `0x9C`, and each of them where a new sequence begins.
-/

set_option autoImplicit false

namespace Chip8.Text

/-- The blank characters below the space that are text: they may stand anywhere. -/
def isLayout (c : Char) : Bool := c = '\t' || c = '\n' || c = '\x0c' || c = '\r'

def isText (c : Char) : Bool := (0x20 ≤ c.toNat && c.toNat != 0x7F) || isLayout c

/-- How much of a control sequence has been read. -/
inductive SequencePart where
  | outside
  | escape
  /-- The escape character and marks that narrow down what it begins. -/
  | escapeMarks
  | command
  | device
  | deviceNumbers
  | deviceMarks
  /-- Data up to the byte `0x9C`. -/
  | data
  | title
  deriving DecidableEq

namespace SequencePart

def shows (part : SequencePart) (c : Char) : Bool :=
  match part with
  | .outside => isText c
  | .escape | .escapeMarks | .command => isLayout c
  | _ => false

/-- Where a sequence stands after a character that is not shown. -/
def next (part : SequencePart) (c : Char) : SequencePart :=
  let code := c.toNat
  -- Two control characters break off any sequence, and escape begins a new one.
  if code = 0x18 ∨ code = 0x1A then .outside
  else if code = 0x1B then .escape
  else
    match part with
    | .outside => .outside
    | .escape =>
        if code < 0x20 ∨ 0x7F ≤ code then .escape
        else if code < 0x30 then .escapeMarks
        else if c = '[' then .command
        else if c = ']' then .title
        else if c = 'P' then .device
        else if c = 'X' ∨ c = '^' ∨ c = '_' then .data
        else .outside
    | .escapeMarks => if 0x30 ≤ code ∧ code < 0x7F then .outside else .escapeMarks
    | .command => if 0x40 ≤ code ∧ code < 0x7F then .outside else .command
    | .device =>
        if code < 0x20 ∨ 0x7F ≤ code then .device
        else if code < 0x30 then .deviceMarks
        else if code < 0x40 then .deviceNumbers
        else .data
    | .deviceNumbers =>
        if code < 0x20 ∨ 0x7F ≤ code then .deviceNumbers
        else if code < 0x30 then .deviceMarks
        else if code < 0x3C then .deviceNumbers
        else .data
    | .deviceMarks => if 0x30 ≤ code ∧ code < 0x7F then .data else .deviceMarks
    -- The byte may be one of those that spell a character.
    | .data => if 0x9C ∈ String.utf8EncodeChar c then .outside else .data
    | .title => if code = 0x07 then .outside else .title

end SequencePart

/-- The text of `cs`, when `part` of a sequence has been read before it.  Once a
character is `shown`, text behind it is shown too, and the unfinished sequence goes on
at the next control character. -/
def textFrom (part : SequencePart) (shown : Bool) : List Char → List Char
  | [] => []
  | c :: cs =>
      if shown && isText c then
        -- A character beyond ASCII ends the unfinished sequence.
        c :: textFrom (if c.toNat < 0x80 then part else .outside) true cs
      else if part.shows c then c :: textFrom part true cs
      else textFrom (part.next c) false cs

/-- A text without control characters and sequences.  One that is unfinished at the end
is dropped. -/
def withoutControls (text : String) : String :=
  String.ofList (textFrom .outside false text.toList)

end Chip8.Text
