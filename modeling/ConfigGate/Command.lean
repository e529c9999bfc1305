import ConfigGate.Session
import ConfigGate.Text.Controls

/-!
# The command line

The program takes no arguments but those that ask for help or for its version. The first argument
decides. Without any, the document on the standard input is judged.
-/

namespace ConfigGate

/-- What the arguments ask for. -/
inductive Request where
  | judge
  | summary
  | help
  | version
  | unexpected (argument : String)
deriving DecidableEq

namespace Request

/-- Short options behind one dash, of which the first counts. -/
def ofLetter (c : Char) : Request :=
  if c = 'h' then summary
  else if c = 'V' then version
  else unexpected (String.ofList ['-', c])

/-- A single argument that may be an option. -/
def ofArgument (argument : String) : Request :=
  if argument = "--help" then help
  else if argument = "--version" then version
  else
    match argument.toList with
    | '-' :: c :: _ => if c = '-' then unexpected argument else ofLetter c
    | _ => unexpected argument

/-- Two dashes alone end the options, and nothing may follow. -/
def ofArguments : List String → Request
  | [] => judge
  | argument :: rest =>
    if argument = "--" then
      match rest with
      | [] => judge
      | positional :: _ => unexpected positional
    else
      ofArgument argument

end Request

/-! ### Texts -/

def versionText : String := "schemagate 0.1.0\n"

/-- Lines with a newline behind each. -/
def unlines (lines : List String) : String := String.join (lines.map (· ++ "\n"))

def aboutLines : List String :=
  ["Validate one structural config document from stdin and report violations as JSON.",
    "",
    "Usage: schemagate",
    "",
    "Options:"]

def summaryText : String :=
  unlines (aboutLines ++
    ["  -h, --help     Print help (see more with '--help')",
      "  -V, --version  Print version"])

def usageLines : List String :=
  ["Usage:",
    "  schemagate < config.json",
    "  echo '\x7b\"id\": \"...\", \"timestamp\": \"...\", ...\x7d' | schemagate",
    "",
    "Schema (all fields required, unknown fields ignored):",
    "  id           UUID",
    "  timestamp    date-time (RFC 3339, naive ISO 8601, date, or unix number)",
    "  temperature  number, -50 to 150 inclusive",
    "  pressure     number, 800 to 1200 inclusive",
    "  mode         \"AUTO\" or \"MANUAL\"",
    "",
    "Output:",
    "  \x7b\"ok\": true, \"errors\": []\x7d",
    "  \x7b\"ok\": false, \"errors\": [\x7b\"type\": ..., \"loc\": [...], " ++
      "\"msg\": ..., \"input\": ...\x7d]\x7d",
    "",
    "Exit status is 0 whenever a verdict is printed, 1 when the input cannot be",
    "read or is not a JSON object.",
    "Set RUST_LOG=debug for diagnostics on stderr."]

def helpText : String :=
  unlines (aboutLines ++
    ["  -h, --help",
      "          Print help (see a summary with '-h')",
      "",
      "  -V, --version",
      "          Print version",
      ""] ++ usageLines)

/-- The message about an argument, which is shown without control sequences. One wording serves for
all arguments, also for those that are close to an option. -/
def unexpectedText (argument : String) : List UInt8 :=
  Text.bytes "error: unexpected argument '".toList ++
    Text.printable .ground (Text.bytes argument.toList) ++
    Text.bytes
      "' found\n\nUsage: schemagate\n\nFor more information, try '--help'.\n".toList

/-! ### Outcomes -/

/-- What the program ends with: its exit code and what it writes to the two outputs. -/
structure Outcome where
  code : UInt32
  output : List UInt8
  errors : List UInt8

namespace Outcome

/-- A text on the standard output. -/
def ofText (text : String) : Outcome := ⟨0, Text.bytes text.toList, []⟩

/-- A sink that takes everything. -/
def unlimited : Sink := ⟨none, "", none⟩

/-- The outcome of judging a document. -/
def ofDocument (stdin : ByteArray) : Outcome :=
  let session := Session.run ⟨stdin, none⟩ unlimited
  match session.failure with
  | none => ⟨0, session.output, []⟩
  | some failure =>
    ⟨1, session.output, Text.bytes ("Error: " ++ failure.message ++ "\n").toList⟩

/-- The outcome of a request, given what is on the standard input. -/
def ofRequest (stdin : ByteArray) : Request → Outcome
  | .judge => ofDocument stdin
  | .summary => ofText summaryText
  | .help => ofText helpText
  | .version => ofText versionText
  | .unexpected argument => ⟨2, [], unexpectedText argument⟩

/-- The outcome of the program. -/
def ofArguments (arguments : List String) (stdin : ByteArray) : Outcome :=
  ofRequest stdin (.ofArguments arguments)

end Outcome

end ConfigGate
