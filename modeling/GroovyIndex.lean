import GroovyIndex.Tree.Build
import GroovyIndex.Encoding.Tree
import GroovyIndex.Encoding.Answer
import GroovyIndex.Encoding.Config
import GroovyIndex.Lsp
import GroovyIndex.Service
import GroovyIndex.Proofs.Index
import GroovyIndex.Proofs.Records
import GroovyIndex.Proofs.Resolution
import GroovyIndex.Proofs.Descent
import GroovyIndex.Proofs.Innermost
import GroovyIndex.Proofs.Occurrences
import GroovyIndex.Proofs.LocalFirst
import GroovyIndex.Proofs.Relabel
import GroovyIndex.Proofs.StableResolution
import GroovyIndex.Proofs.EditedTree
import GroovyIndex.Proofs.EditBatch
import GroovyIndex.Proofs.RenamePlan
import GroovyIndex.Proofs.RenameStart
import GroovyIndex.Proofs.RenameContent
import GroovyIndex.Proofs.RenameDisjoint
import GroovyIndex.Proofs.Rename
import GroovyIndex.Proofs.Partition
import GroovyIndex.Proofs.RenameGuards
import GroovyIndex.Proofs.GoToDefinition
import GroovyIndex.Proofs.StoreHistory
import GroovyIndex.Proofs.ServiceFailures
import GroovyIndex.Proofs.IndexStructure
import GroovyIndex.Proofs.Scoping
import GroovyIndex.Proofs.JsonText
import GroovyIndex.Proofs.JsonForm
import GroovyIndex.Proofs.AnswerForm
import GroovyIndex.Proofs.RoundTrip
import GroovyIndex.Proofs.LookupLoop
import GroovyIndex.Proofs.Recorded
import GroovyIndex.Proofs.FieldOrder
import GroovyIndex.Proofs.AccessorNames
import GroovyIndex.Proofs.ChainLaws
import GroovyIndex.Proofs.BuiltTrees
import GroovyIndex.Proofs.CallHelp
import GroovyIndex.Proofs.Outline
import GroovyIndex.Proofs.ProtocolOrder
import GroovyIndex.Proofs.CanonicalBatch
