import FeatureDoc.Files.Tree
import FeatureDoc.Main
import FeatureDoc.Proofs.Document.Alignment
import FeatureDoc.Proofs.Document.Append
import FeatureDoc.Proofs.Document.Attempts
import FeatureDoc.Proofs.Document.Cells
import FeatureDoc.Proofs.Document.Tags
import FeatureDoc.Proofs.Filter.Expansion
import FeatureDoc.Proofs.Filter.RangeGrammar
import FeatureDoc.Proofs.Filter.Selection
import FeatureDoc.Proofs.Filter.SingleLine
import FeatureDoc.Proofs.Filter.TagPlaces
import FeatureDoc.Proofs.Grammar.Comments
import FeatureDoc.Proofs.Outline.ColumnOrder
import FeatureDoc.Proofs.Outline.Numbers
import FeatureDoc.Proofs.Outline.Outcome
import FeatureDoc.Proofs.Outline.References
import FeatureDoc.Proofs.Pull.Document
import FeatureDoc.Proofs.Report.Json
import FeatureDoc.Proofs.Report.Table
import FeatureDoc.Proofs.Run.Discovery
import FeatureDoc.Proofs.Run.Outcome
import FeatureDoc.Proofs.Run.Separation
import FeatureDoc.Proofs.Step.Refusal
import FeatureDoc.Proofs.Token.LineEnd
import FeatureDoc.Proofs.Token.Offset
