import PersistedQuery.Document.Parsed
import PersistedQuery.Fold.Script
import PersistedQuery.Manifest.Generate
import PersistedQuery.Proofs.Quoted
import PersistedQuery.Proofs.Reading
import PersistedQuery.Proofs.Spelling
import PersistedQuery.Proofs.Tree
import PersistedQuery.Proofs.Canonical.Value
import PersistedQuery.Proofs.Canonical.Selection
import PersistedQuery.Proofs.Canonical.Document
import PersistedQuery.Proofs.Canonical.Literal
import PersistedQuery.Proofs.Canonical.Gaps
import PersistedQuery.Proofs.Injection
import PersistedQuery.Proofs.Recording
import PersistedQuery.Proofs.Composition
import PersistedQuery.Proofs.Stripping
import PersistedQuery.Proofs.Resolving
import PersistedQuery.Proofs.Traversal
import PersistedQuery.Proofs.Relation
import PersistedQuery.Proofs.Decimal.Interval
import PersistedQuery.Proofs.Decimal.Search
import PersistedQuery.Proofs.Decimal.Reading
import PersistedQuery.Proofs.Decimal.Rounding
import PersistedQuery.Proofs.Conversion.Shorthand
import PersistedQuery.Proofs.Conversion.Range
import PersistedQuery.Proofs.Conversion.Faithful
import PersistedQuery.Proofs.Conversion.Floats
import PersistedQuery.Proofs.Json.Tokens
import PersistedQuery.Proofs.Json.Reading
import PersistedQuery.Proofs.Rendering
import PersistedQuery.Proofs.Fold.Dialogue
import PersistedQuery.Proofs.Fold.Following
import PersistedQuery.Proofs.Fold.PostOrder
import PersistedQuery.Proofs.Fold.Places
import PersistedQuery.Proofs.Fold.Refusing
import PersistedQuery.Proofs.Fold.Restoring
import PersistedQuery.Proofs.Fold.Identifying
import PersistedQuery.Proofs.Sets
import PersistedQuery.Proofs.Shedding
import PersistedQuery.Proofs.Undoing
import PersistedQuery.Proofs.ResponseKeys
import PersistedQuery.Proofs.Options
import PersistedQuery.Proofs.Accounting
import PersistedQuery.Proofs.Fold.Copying
import PersistedQuery.Proofs.Conversion.Objects
