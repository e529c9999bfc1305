import ConfigGate.Command

/-!
# The program
-/

namespace ConfigGate

/-- Reads a stream to its end. -/
partial def readAll (stream : IO.FS.Stream) (bytes : ByteArray) : IO ByteArray := do
  let chunk ← stream.read 65536
  if chunk.isEmpty then return bytes else readAll stream (bytes ++ chunk)

end ConfigGate

/-- The standard input is read only where it is judged. -/
def main (arguments : List String) : IO UInt32 := do
  let request := ConfigGate.Request.ofArguments arguments
  let stdin ← if request = .judge then ConfigGate.readAll (← IO.getStdin) .empty else pure .empty
  let outcome := ConfigGate.Outcome.ofRequest stdin request
  (← IO.getStdout).write ⟨outcome.output.toArray⟩
  (← IO.getStdout).flush
  (← IO.getStderr).write ⟨outcome.errors.toArray⟩
  return outcome.code
