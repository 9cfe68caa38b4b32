import WireSchema.Main
import WireSchema.Proofs.Faithful
import WireSchema.Proofs.CanonicalText
import WireSchema.Proofs.ErrorModes
import WireSchema.Proofs.SourceOrder
import WireSchema.Proofs.Layout
import WireSchema.Proofs.StagedWrites
import WireSchema.Proofs.UniqueDecoding
import WireSchema.Proofs.InRange
import WireSchema.Proofs.Consent
import WireSchema.Proofs.TargetsAgree
import WireSchema.Proofs.FirstFault
import WireSchema.Proofs.BrokenBlocks
import WireSchema.Proofs.CaseShapes
import WireSchema.Proofs.ErrorChannel
import WireSchema.Proofs.TargetIsolation
import WireSchema.Proofs.References
import WireSchema.Proofs.ClaimedNames
import WireSchema.Proofs.NumberText
import WireSchema.Proofs.GoReferences
import WireSchema.Proofs.JavaScriptReferences
import WireSchema.Proofs.NameCapture
import WireSchema.Proofs.Segmentation
import WireSchema.Proofs.Accounted
import WireSchema.Proofs.SnakeForm
import WireSchema.Proofs.NameProblems
import WireSchema.Proofs.QuotedText
import WireSchema.Proofs.Ancestors
import WireSchema.Proofs.WrittenFiles
import WireSchema.Proofs.FoldedNames
import WireSchema.Proofs.MethodCalls
import WireSchema.Proofs.BigIntSetting
import WireSchema.Proofs.Progress
import WireSchema.Proofs.RoundingIntervals
import WireSchema.Proofs.DecimalText
import WireSchema.Proofs.JsonText
import WireSchema.Proofs.SchemaDump
