import MessageScript.Address
import MessageScript.Address.IPv4
import MessageScript.Address.IPv6
import MessageScript.Calendar.Date
import MessageScript.Calendar.DateTime
import MessageScript.Calendar.Duration
import MessageScript.Calendar.Fraction
import MessageScript.Calendar.TimeOfDay
import MessageScript.Document.Line
import MessageScript.Document.Section
import MessageScript.Edit
import MessageScript.Error
import MessageScript.Field.Basic
import MessageScript.Field.Index
import MessageScript.Field.Path
import MessageScript.Field.Tree
import MessageScript.Field.Walk
import MessageScript.Floating.Arithmetic
import MessageScript.Floating.Basic
import MessageScript.Floating.Bytes
import MessageScript.Floating.Numeral
import MessageScript.Floating.Rounding
import MessageScript.Integer.Bytes
import MessageScript.Integer.Width
import MessageScript.Json.Basic
import MessageScript.Json.Number
import MessageScript.Json.Reader
import MessageScript.Name
import MessageScript.Path
import MessageScript.Record
import MessageScript.Size.ByteSize
import MessageScript.Size.DecimalPattern
import MessageScript.Size.Magnitude
import MessageScript.Size.Scaled
import MessageScript.Stored.Basic
import MessageScript.Stored.Field
import MessageScript.Tag
import MessageScript.Text.Alphabetic
import MessageScript.Text.Blank
import MessageScript.Text.CodeRange
import MessageScript.Text.Decimal
import MessageScript.Text.Hex
import MessageScript.Text.Lowercase
import MessageScript.Text.Printable
import MessageScript.Text.Quoted
import MessageScript.Text.Reading
import MessageScript.Text.WordCase
import MessageScript.Value.Basic
import MessageScript.Value.Coercion
import MessageScript.Value.Kind
import MessageScript.Value.Scalar
import MessageScript.Proofs.Field.Level
import MessageScript.Proofs.Field.Lookup
import MessageScript.Proofs.Field.Reachable
import MessageScript.Proofs.Stored.Field
import MessageScript.Proofs.Field.Invariant
import MessageScript.Proofs.Field.Coherence
import MessageScript.Proofs.Text.FinalSigma
import MessageScript.Proofs.Name
import MessageScript.Proofs.Field.Agreement
import MessageScript.Proofs.Field.Removal
import MessageScript.Proofs.Field.Address
import MessageScript.Proofs.Field.Place
import MessageScript.Proofs.Field.Write
import MessageScript.Proofs.Refusal
import MessageScript.Proofs.Text.Reading
import MessageScript.Proofs.Calendar.Fraction
import MessageScript.Proofs.Calendar.Duration
import MessageScript.Proofs.Calendar.CivilDate
import MessageScript.Proofs.Calendar.Form
import MessageScript.Proofs.Calendar.DateTime
import MessageScript.Proofs.Integer.Bytes
import MessageScript.Proofs.Field.Walk
import MessageScript.Proofs.Size.ByteSize
import MessageScript.Proofs.Value.Number
import MessageScript.Proofs.Calendar.Year
import MessageScript.Proofs.Stored.Value
import MessageScript.Proofs.Value.Epoch
import MessageScript.Proofs.Naming
import MessageScript.Proofs.Tag
import MessageScript.Proofs.Field.Naming
import MessageScript.Proofs.Path
import MessageScript.Proofs.Field.Route
import MessageScript.Proofs.Json.Text
import MessageScript.Proofs.Stored.Tree
import MessageScript.Proofs.Document.Line
import MessageScript.Proofs.Document.Section
import MessageScript.Proofs.Integer.Numeral
import MessageScript.Proofs.Value.PlainText
import MessageScript.Proofs.Value.Coherence
import MessageScript.Proofs.Calendar.ColonForm
import MessageScript.Proofs.Size.Form
import MessageScript.Proofs.Floating.Value
import MessageScript.Proofs.Floating.PlainNumeral
import MessageScript.Proofs.Size.Nearest
import MessageScript.Proofs.Size.Order
import MessageScript.Proofs.Text.Bytes
import MessageScript.Proofs.Text.Scan
import MessageScript.Proofs.Calendar.Scan
import MessageScript.Proofs.Calendar.ScanDuration
import MessageScript.Proofs.Size.Scan
import MessageScript.Proofs.Faultless
import MessageScript.Proofs.Calendar.DayOrder
import MessageScript.Proofs.Value.EpochViews
import MessageScript.Proofs.Calendar.UnitForm
import MessageScript.Proofs.Value.StableText
import MessageScript.Proofs.Field.PathRemoval
import MessageScript.Proofs.Calendar.Completion
import MessageScript.Proofs.Size.Pattern
import MessageScript.Proofs.Floating.Nearest
import MessageScript.Proofs.Floating.Arithmetic
import MessageScript.Proofs.Floating.TenPower
import MessageScript.Proofs.Size.Significant
import MessageScript.Proofs.Floating.Shortest
import MessageScript.Proofs.Size.Quotient
import MessageScript.Proofs.Size.Scaled
import MessageScript.Proofs.Size.InUnit
