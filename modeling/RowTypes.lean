import RowTypes.Main
import RowTypes.Proofs.Demotion
import RowTypes.Proofs.Failing
import RowTypes.Proofs.Frame
import RowTypes.Proofs.Grouping
import RowTypes.Proofs.Statements
import RowTypes.Proofs.TypeText
import RowTypes.Proofs.Identifiers
import RowTypes.Proofs.Walking
import RowTypes.Proofs.Actions
import RowTypes.Proofs.Installing
import RowTypes.Proofs.Jobs
import RowTypes.Proofs.Preparing
import RowTypes.Proofs.Conflicts
import RowTypes.Proofs.Answers
import RowTypes.Proofs.Companions
import RowTypes.Proofs.CompanionText
import RowTypes.Proofs.Cancelling
import RowTypes.Proofs.Accounting
import RowTypes.Proofs.Alone
import RowTypes.Proofs.AnyOrder
import RowTypes.Proofs.Boundaries
import RowTypes.Proofs.ByteReader
import RowTypes.Proofs.ByteScan
import RowTypes.Proofs.Intersections
import RowTypes.Proofs.LaterQueries
import RowTypes.Proofs.NotNull
import RowTypes.Proofs.NullableTables
import RowTypes.Proofs.SafeSpans
import RowTypes.Proofs.TemplateWriting
import RowTypes.Proofs.AllOrNothing
import RowTypes.Proofs.Delimiting
import RowTypes.Proofs.Verbatim
import RowTypes.Proofs.Policies
import RowTypes.Proofs.Pruning
import RowTypes.Proofs.BlockPlace
import RowTypes.Proofs.ChangedFiles
import RowTypes.Proofs.GroupingSets
import RowTypes.Proofs.Signatures
import RowTypes.Proofs.TableColumns
import RowTypes.Proofs.TableNames
import RowTypes.Proofs.TypeReading
import RowTypes.Proofs.TypeStructure
