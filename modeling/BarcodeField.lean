import BarcodeField.CheckDigit
import BarcodeField.Code128.Content
import BarcodeField.Code128.Mode
import BarcodeField.CommandLine.Arguments
import BarcodeField.CommandLine.Run
import BarcodeField.CommandLine.Settings
import BarcodeField.CommandLine.Terminal
import BarcodeField.Content
import BarcodeField.Decimal
import BarcodeField.Document.Field
import BarcodeField.Document.Profile
import BarcodeField.Double
import BarcodeField.Draw
import BarcodeField.Draw.Trace
import BarcodeField.Escape
import BarcodeField.Field
import BarcodeField.Font
import BarcodeField.Json.Numeral
import BarcodeField.Json.Reader
import BarcodeField.Json.Record
import BarcodeField.Json.Value
import BarcodeField.Json.Writer
import BarcodeField.Main
import BarcodeField.Plan
import BarcodeField.Profile
import BarcodeField.Proofs.CheckDigit.Detection
import BarcodeField.Proofs.CheckDigit.WeightedSum
import BarcodeField.Proofs.Code128.Agreement
import BarcodeField.Proofs.Code128.CaseCode
import BarcodeField.Proofs.Code128.Flag
import BarcodeField.Proofs.Code128.LeadingFnc1
import BarcodeField.Proofs.Code128.Lossless
import BarcodeField.Proofs.Code128.Payload
import BarcodeField.Proofs.Code39.Line
import BarcodeField.Proofs.CommandLine.CheckDigit
import BarcodeField.Proofs.Decimal.Midpoint
import BarcodeField.Proofs.Decimal.Shortest
import BarcodeField.Proofs.Decimal.Value
import BarcodeField.Proofs.Document.Field
import BarcodeField.Proofs.Document.Profile
import BarcodeField.Proofs.Double.Error
import BarcodeField.Proofs.Draw.Heights
import BarcodeField.Proofs.Draw.Noted
import BarcodeField.Proofs.Draw.Staging
import BarcodeField.Proofs.Escape.Deletion
import BarcodeField.Proofs.Escape.Fnc1
import BarcodeField.Proofs.Escape.Reduction
import BarcodeField.Proofs.Escape.StartCode
import BarcodeField.Proofs.Json.Document
import BarcodeField.Proofs.Json.Numeral
import BarcodeField.Proofs.Json.Record
import BarcodeField.Proofs.Json.Single
import BarcodeField.Proofs.Json.String
import BarcodeField.Proofs.Plan.Failure
import BarcodeField.Proofs.Plan.Heights
import BarcodeField.Proofs.Plan.Independence
import BarcodeField.Proofs.Plan.LineSize
import BarcodeField.Proofs.Plan.Lookup
import BarcodeField.Proofs.Profile.FaultOrder
import BarcodeField.Proofs.Profile.FontOrder
import BarcodeField.Proofs.Profile.LineFont
import BarcodeField.Proofs.Profile.Validity
import BarcodeField.Proofs.Rounding.Fractions
import BarcodeField.Proofs.Rounding.Nearest
import BarcodeField.Proofs.Rounding.Within
import BarcodeField.Proofs.Single.Product
import BarcodeField.Proofs.Single.ReadBack
import BarcodeField.Proofs.Text.Strip
import BarcodeField.Rounding
import BarcodeField.Single.Arithmetic
import BarcodeField.Single.Basic
import BarcodeField.Single.Decimal
import BarcodeField.Single.Literal
import BarcodeField.Text
