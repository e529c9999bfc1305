/-!
# Control sequences

Text from outside is shown on a terminal without the sequences that control it. `Control.step`
follows a text byte by byte: where in a sequence it is, and whether the byte is shown. A sequence
starts with an escape. Blanks among the control codes are shown, also inside a short sequence, which
they interrupt: text behind such a blank is shown, the next control code takes the sequence up
again, and a character beyond ASCII gives it up.
-/

namespace ConfigGate.Text

/-- Where in a control sequence a byte stands. -/
inductive Sequence where
  /-- Behind an escape. -/
  | escape
  /-- Behind an escape and bytes that select a further set. -/
  | selection
  /-- In a sequence with parameters. -/
  | parameters
  /-- At the start of a device string. -/
  | device
  /-- Among the parameters of a device string. -/
  | deviceParameters
  /-- Among the selecting bytes of a device string. -/
  | deviceSelection
  /-- In a string that a terminator byte ends. -/
  | string
  /-- In a command of the operating system, which a bell ends. -/
  | command
deriving DecidableEq

namespace Sequence

/-- The byte that ends a string. -/
def terminator : Nat := 0x9c

/-- What the byte behind an escape leads to, if the sequence goes on. -/
def afterEscape (b : Nat) : Option Sequence :=
  if b < 0x20 then some escape
  else if b < 0x30 then some selection
  else if b = 0x50 then some device
  else if b = 0x58 ∨ b = 0x5e ∨ b = 0x5f then some string
  else if b = 0x5b then some parameters
  else if b = 0x5d then some command
  else if b < 0x7f then none
  else some escape

/-- What a byte leads to, if the sequence goes on. -/
def next (b : Nat) : Sequence → Option Sequence
  | escape => afterEscape b
  | selection => if 0x30 ≤ b ∧ b < 0x7f then none else some selection
  | parameters => if 0x40 ≤ b ∧ b < 0x7f then none else some parameters
  | device =>
    if b < 0x20 then some device
    else if b < 0x30 then some deviceSelection
    else if b < 0x40 then some deviceParameters
    else if b < 0x7f then some string
    else some device
  | deviceParameters =>
    if b < 0x20 then some deviceParameters
    else if b < 0x30 then some deviceSelection
    else if b < 0x3c then some deviceParameters
    else if b < 0x7f then some string
    else some deviceParameters
  | deviceSelection => if 0x30 ≤ b ∧ b < 0x7f then some string else some deviceSelection
  | string => if b = terminator then none else some string
  | command => if b = 0x07 then none else some command

/-- Whether a blank interrupts this part of a sequence. -/
def yields : Sequence → Bool
  | escape | selection | parameters => true
  | device | deviceParameters | deviceSelection | string | command => false

end Sequence

/-- Where in a text a byte stands. -/
inductive Control where
  /-- Outside any sequence. -/
  | ground
  /-- Inside a character, with this many bytes of it to come. -/
  | character (left : Nat)
  /-- Inside a sequence. -/
  | inside (sequence : Sequence)
  /-- In text that interrupts a sequence. -/
  | between (sequence : Sequence)
deriving DecidableEq

namespace Control

/-- The control codes that are blanks. -/
def isBlankCode (b : Nat) : Bool := b = 0x09 ∨ b = 0x0a ∨ b = 0x0c ∨ b = 0x0d

/-- The state that a sequence leads to. -/
def ofSequence : Option Sequence → Control
  | none => ground
  | some sequence => inside sequence

/-- A byte of text that is shown. `here` is where more such text stands, and `behind` is where a
control code leads. -/
def onText (here behind : Control) (b : Nat) : Control × Bool :=
  if b < 0x20 then if isBlankCode b then (here, true) else (behind, false)
  else if b < 0x7f then (here, true)
  else if b < 0xc2 then (behind, false)
  else if b < 0xe0 then (character 1, true)
  else if b < 0xf0 then (character 2, true)
  else if b < 0xf5 then (character 3, true)
  else (behind, false)

/-- A byte inside a sequence. -/
def onSequence (sequence : Sequence) (b : Nat) : Control × Bool :=
  if sequence.yields ∧ isBlankCode b then (between sequence, true)
  else (ofSequence (sequence.next b), false)

/-- The state behind a byte, and whether the byte is shown. An escape starts a sequence anywhere,
and the codes 0x18 and 0x1a end one. -/
def step (state : Control) (b : Nat) : Control × Bool :=
  match state with
  | character (left + 2) => (character (left + 1), true)
  | character _ => (ground, true)
  | ground => commonStep b (onText ground ground b)
  | inside sequence => commonStep b (onSequence sequence b)
  | between sequence => commonStep b (onText (between sequence) (inside sequence) b)
where
  /-- The codes that do the same everywhere, and `other` for the rest. -/
  commonStep (b : Nat) (other : Control × Bool) : Control × Bool :=
    if b = 0x1b then (inside .escape, false)
    else if b = 0x18 ∨ b = 0x1a then (ground, false)
    else other

end Control

/-- The bytes that are shown of a text that starts in `state`. -/
def printable (state : Control) : List UInt8 → List UInt8
  | [] => []
  | b :: bs =>
    match state.step b.toNat with
    | (next, true) => b :: printable next bs
    | (next, false) => printable next bs

end ConfigGate.Text
