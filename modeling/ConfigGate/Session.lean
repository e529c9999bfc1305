import ConfigGate.Judgement

/-!
# Sessions

A session reads a document from a source, judges it and writes the line of its verdict to a sink.
What happens is logged before the line is written.
-/

namespace ConfigGate

/-- Bytes to be read, and the failure that follows them if there is one. -/
structure Source where
  bytes : ByteArray
  failure : Option String

/-- The text of a source. A failure counts before the encoding is looked at. -/
def Source.read (source : Source) : Except ReadFault String :=
  match source.failure with
  | some reason => .error (.source reason)
  | none =>
    match String.fromUTF8? source.bytes with
    | some text => .ok text
    | none => .error .encoding

/-- Something that takes bytes, perhaps up to a limit. -/
structure Sink where
  /-- How many bytes are taken, if there is a limit. -/
  capacity : Option Nat
  /-- The reason given for bytes that are not taken. -/
  refusal : String
  /-- The reason given when what was taken cannot be passed on. -/
  flushFailure : Option String

namespace Sink

/-- What is taken of a sequence of writes while there is `room`, and whether that is all of it. The
first write that is not taken whole is the last. -/
def take (room : Option Nat) : List (List UInt8) → List UInt8 × Bool
  | [] => ([], true)
  | w :: ws =>
    match room with
    | none =>
      let (taken, all) := take none ws
      (w ++ taken, all)
    | some n =>
      if w.length ≤ n then
        let (taken, all) := take (some (n - w.length)) ws
        (w ++ taken, all)
      else
        (w.take n, false)

/-- Writes fragments and flushes. Gives what was taken and the reason of a failure. -/
def write (sink : Sink) (fragments : List Json.Fragment) : List UInt8 × Option String :=
  let (taken, all) := take sink.capacity (fragments.map Text.bytes)
  (taken, if all then sink.flushFailure else some sink.refusal)

end Sink

/-- An entry of the log. -/
inductive Event where
  | documentRead (bytes : Nat)
  | documentJudged (ok : Bool) (violations : Nat)
  | recordNormalized (record : Record)

/-- The line of an event. -/
def Event.line : Event → String
  | documentRead bytes => "DEBUG read document bytes=" ++ String.ofList (decimalText bytes)
  | documentJudged ok violations =>
    "DEBUG validated document ok=" ++ (if ok then "true" else "false") ++ " errors=" ++
      String.ofList (decimalText violations)
  | recordNormalized record =>
    "DEBUG normalized record record=" ++ String.ofList record.text

/-- The events of a verdict. -/
def Verdict.events (v : Verdict) : List Event :=
  .documentJudged v.ok v.violations.length :: v.record.toList.map .recordNormalized

/-- What a session leaves behind. -/
structure Session where
  output : List UInt8
  log : List Event
  failure : Option Failure

/-- Reads, judges and writes. -/
def Session.run (source : Source) (sink : Sink) : Session :=
  match source.read with
  | .error fault => ⟨[], [], some (.unreadable fault)⟩
  | .ok text =>
    let read := Event.documentRead text.utf8ByteSize
    match judge text.toList with
    | .error failure => ⟨[], [read], some failure⟩
    | .ok verdict =>
      let (output, reason) := sink.write verdict.fragments
      ⟨output, read :: verdict.events, reason.map .unwritable⟩

end ConfigGate
