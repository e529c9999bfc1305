import ConfigGate.Binary64.Basic
import ConfigGate.Binary64.Magnitude
import ConfigGate.Binary64.Rounding
import ConfigGate.Coercion
import ConfigGate.Command
import ConfigGate.Decimal.Layout
import ConfigGate.Decimal.Numeral
import ConfigGate.Decimal.NumericText
import ConfigGate.Decimal.Shortest
import ConfigGate.Digits
import ConfigGate.Failure
import ConfigGate.Json.Basic
import ConfigGate.Json.Fault
import ConfigGate.Json.Number
import ConfigGate.Json.Parse
import ConfigGate.Json.Scan
import ConfigGate.Json.Write
import ConfigGate.Judgement
import ConfigGate.Main
import ConfigGate.Moment.Basic
import ConfigGate.Moment.Calendar
import ConfigGate.Moment.Fault
import ConfigGate.Moment.Parse
import ConfigGate.Moment.Read
import ConfigGate.Moment.Unix
import ConfigGate.Moment.Written
import ConfigGate.Record
import ConfigGate.Schema
import ConfigGate.Session
import ConfigGate.Text.Blank
import ConfigGate.Text.Bytes
import ConfigGate.Text.Controls
import ConfigGate.Text.Hidden
import ConfigGate.Text.Visible
import ConfigGate.Uuid
import ConfigGate.Verdict
import ConfigGate.Violation
import ConfigGate.Proofs.Coercion
import ConfigGate.Proofs.Conformance
import ConfigGate.Proofs.Digits
import ConfigGate.Proofs.Json.Grammar
import ConfigGate.Proofs.Json.Scan
import ConfigGate.Proofs.Json.Members
import ConfigGate.Proofs.Json.Number
import ConfigGate.Proofs.Json.Parse
import ConfigGate.Proofs.Judgement
import ConfigGate.Proofs.Binary64.Rounding
import ConfigGate.Proofs.Decimal.Shortest
import ConfigGate.Proofs.Json.Escape
import ConfigGate.Proofs.Json.Float
import ConfigGate.Proofs.Json.Write
import ConfigGate.Proofs.Moment.Calendar
import ConfigGate.Proofs.Moment.Text
import ConfigGate.Proofs.Normalized
import ConfigGate.Proofs.VerdictLine
import ConfigGate.Proofs.Locality
import ConfigGate.Proofs.Session
import ConfigGate.Proofs.Truncation
import ConfigGate.Proofs.Binary64.Error
import ConfigGate.Proofs.Json.Accuracy
import ConfigGate.Proofs.Range
import ConfigGate.Proofs.Command
import ConfigGate.Proofs.Binary64.Integer
import ConfigGate.Proofs.Moment.Unix
import ConfigGate.Proofs.Moment.Grammar
import ConfigGate.Proofs.Moment.Offset
import ConfigGate.Proofs.Agreement
import ConfigGate.Proofs.Moment.Days
import ConfigGate.Proofs.Moment.Fields
import ConfigGate.Proofs.UuidSpelling
import ConfigGate.Proofs.LineText
import ConfigGate.Proofs.Moment.Local
import ConfigGate.Proofs.Binary64.Nearest
import ConfigGate.Proofs.Decimal.NumericGrammar
import ConfigGate.Proofs.NumberText
import ConfigGate.Proofs.Decimal.Fewest
import ConfigGate.Proofs.FloatText
import ConfigGate.Proofs.Moment.UnixRange
import ConfigGate.Proofs.Description
import ConfigGate.Proofs.Repetition
import ConfigGate.Proofs.Json.Strings
import ConfigGate.Proofs.Report
import ConfigGate.Proofs.Json.Staging
import ConfigGate.Proofs.Except
import ConfigGate.Proofs.Text
