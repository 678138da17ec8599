import PersistedQuery.Error
import PersistedQuery.Fold.Visit
import PersistedQuery.Manifest.OutputFormat

/-!
# Log

The events of a run, which are kept in the order in which they happen, also when the run fails.
-/

namespace PersistedQuery

inductive Event where
  /-- A run on this many files begins. -/
  | run (documents : Nat)
  | addingDocument (location : Option String)
  | skippingFile (location : Option String)
  /-- A selection set of an owner gains a `__typename` field. -/
  | addingTypename (path : Path) (parent : Owner)
  | skippingDocument
  | addedEntry (hash : String)
  | rendering (entries : Nat) (format : OutputFormat)
  deriving DecidableEq

inductive Level where
  | info
  | debug
  | trace
  deriving DecidableEq

def Level.name : Level → String
  | .info => "INFO"
  | .debug => "DEBUG"
  | .trace => "TRACE"

/-- What an event tells beside its message. -/
inductive Detail where
  | text (s : String)
  | count (n : Nat)
  deriving DecidableEq

namespace Event

def level : Event → Level
  | .run _ => .info
  | .addingTypename _ _ => .trace
  | .addingDocument _ | .skippingFile _ | .skippingDocument | .addedEntry _ | .rendering _ _ => .debug

def message : Event → String
  | .run _ => "span plugin"
  | .addingDocument _ => "adding document"
  | .skippingFile _ => "skipping file without a parsed document"
  | .addingTypename _ _ => "adding __typename"
  | .skippingDocument => "skipping document without canonical text"
  | .addedEntry _ => "added manifest entry"
  | .rendering _ _ => "rendering manifest"

/-- A location as it is logged, also where there is none. -/
def locationText (location : Option String) : String := location.getD "<unknown>"

def details : Event → List (String × Detail)
  | .run documents => [("documents", .count documents)]
  | .addingDocument location | .skippingFile location => [("location", .text (locationText location))]
  | .addingTypename path parent =>
    [("path", .text (String.ofList path.text)), ("depth", .count path.depth), ("parent", .text parent.name)]
  | .skippingDocument => []
  | .addedEntry hash => [("hash", .text hash)]
  | .rendering entries format =>
    let name := match format with
      | .jsonLines => "JsonLines"
      | .object => "Object"
    [("entries", .count entries), ("output", .text name)]

end Event

/-- A run that logs and may fail. -/
abbrev LogM := ExceptT Error (StateM (List Event))

def log (e : Event) : LogM Unit := modify (· ++ [e])

/-- The outcome of a run, and all it has logged. -/
def LogM.run {α : Type} (x : LogM α) : Except Error α × List Event := StateT.run (ExceptT.run x) []

end PersistedQuery
