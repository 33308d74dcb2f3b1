import BlockCone.Dump
import BlockCone.InteriorPoint
import BlockCone.Matrix.Definite
import BlockCone.Workspace
import BlockCone.Proofs.Evaluation
import BlockCone.Proofs.FlatForm
import BlockCone.Proofs.Lifecycle
import BlockCone.Proofs.Lowering
import BlockCone.Proofs.CanonicalRows
import BlockCone.Proofs.NamedColumns
import BlockCone.Proofs.WellFormed
import BlockCone.Proofs.Boxes
import BlockCone.Proofs.Extraction
import BlockCone.Proofs.Partition
import BlockCone.Proofs.Growth
import BlockCone.Proofs.Interleaving
import BlockCone.Proofs.Edits
import BlockCone.Proofs.RowAccounting
import BlockCone.Proofs.PlainFold
import BlockCone.Proofs.SavedProblems
import BlockCone.Proofs.SavedSettings
import BlockCone.Proofs.Enumeration
import BlockCone.Proofs.RightToLeft
import BlockCone.Proofs.StoredValue
import BlockCone.Proofs.Words
import BlockCone.Proofs.WordCalls
import BlockCone.Proofs.WrappedViews
import BlockCone.Proofs.Machines
import BlockCone.Proofs.RowMajor
import BlockCone.Proofs.CompressedColumns
import BlockCone.Proofs.Contiguity
import BlockCone.Proofs.FormAddition
import BlockCone.Proofs.PickedEntries
import BlockCone.Proofs.DiagonalTrace
import BlockCone.Proofs.DoubleOrder
import BlockCone.Proofs.Reports
import BlockCone.Proofs.ActiveBlocks
import BlockCone.Proofs.DotTerms
import BlockCone.Proofs.FirstUses
import BlockCone.Proofs.JsonGrammar
import BlockCone.Proofs.PartialObjects
import BlockCone.Proofs.PartialSettings
import BlockCone.Proofs.RoundedDoubles
import BlockCone.Proofs.NumberRange
import BlockCone.Proofs.ShortestDigits
import BlockCone.Proofs.CutNumbers
import BlockCone.Proofs.CutRecords
import BlockCone.Proofs.CutDumps
import BlockCone.Proofs.GeneratorCalls
