import PersistedQuery.Fold.Path

/-!
# Visits

The place that a fold has reached.
-/

namespace PersistedQuery

/-- The kinds of nodes that own selections.  The document stands in where a fold has met no owner yet. -/
inductive Owner where
  | document
  | operation
  | fragment
  | field
  | inlineFragment
  deriving DecidableEq

def Owner.name : Owner → String
  | .document => "Document"
  | .operation => "Operation Definition"
  | .fragment => "Fragment Definition"
  | .field => "Field"
  | .inlineFragment => "Inline Fragment"

/-- The path to the current node, and the owner of the innermost selection set around it. -/
structure Visit where
  path : Path := {}
  parent : Owner := .document
  deriving DecidableEq

/-- Whether the innermost selection set is that of an operation. -/
def Visit.isOperationRoot (v : Visit) : Bool := v.parent = .operation

end PersistedQuery
