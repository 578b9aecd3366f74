import FormulaDigest.Main
import FormulaDigest.Proofs.Address
import FormulaDigest.Proofs.Acceptance
import FormulaDigest.Proofs.Traversal
import FormulaDigest.Proofs.Offence
import FormulaDigest.Proofs.ReferenceGrammar
import FormulaDigest.Proofs.Scanning
import FormulaDigest.Proofs.Idempotence
import FormulaDigest.Proofs.Grouping
import FormulaDigest.Proofs.Spelling
import FormulaDigest.Proofs.CsvRoundTrip
import FormulaDigest.Proofs.Deliveries
import FormulaDigest.Proofs.SheetWrites
import FormulaDigest.Proofs.DeliveryFrame
import FormulaDigest.Proofs.ReportJson
import FormulaDigest.Proofs.MarkdownRoundTrip
import FormulaDigest.Proofs.ValueFlow
import FormulaDigest.Proofs.Refusal
import FormulaDigest.Proofs.MadeDirectories
import FormulaDigest.Proofs.ExitCode
import FormulaDigest.Proofs.KeptInputs
import FormulaDigest.Proofs.AddressGrammar
import FormulaDigest.Proofs.GridMerge
import FormulaDigest.Proofs.Splicing
import FormulaDigest.Proofs.Separators
import FormulaDigest.Proofs.EmptyFormulas
import FormulaDigest.Proofs.HeaderNames
import FormulaDigest.Proofs.Numeration
