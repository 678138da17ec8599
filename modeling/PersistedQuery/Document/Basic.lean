import PersistedQuery.Document.Selection

/-!
# Documents

A document is a list of operations and fragments.  An empty selection set stands for a missing one.
-/

namespace PersistedQuery

/-- The type of a variable. -/
inductive TypeRef where
  | named (name : String)
  | list (item : TypeRef)
  | nonNull (inner : TypeRef)
  deriving DecidableEq

/-- A variable of an operation.  The default `null` differs from having no default. -/
structure VariableDefinition (ν : Type) where
  name : String
  type : TypeRef
  defaultValue : Option (Value ν)
  directives : List (Directive ν)
  deriving DecidableEq

inductive OperationKind where
  | query
  | mutation
  | subscription
  deriving DecidableEq

structure Operation (ν : Type) where
  kind : OperationKind
  name : Option String
  variableDefinitions : List (VariableDefinition ν)
  directives : List (Directive ν)
  selectionSet : SelectionSet ν
  deriving DecidableEq

/-- A fragment that spreads refer to by its name. -/
structure Fragment (ν : Type) where
  name : String
  typeCondition : String
  directives : List (Directive ν)
  selectionSet : SelectionSet ν
  deriving DecidableEq

inductive Definition (ν : Type) where
  | operation (o : Operation ν)
  | fragment (f : Fragment ν)
  deriving DecidableEq

structure Document (ν : Type) where
  definitions : List (Definition ν)
  deriving DecidableEq

section

variable {ν : Type}

/-- The definition, if it is an operation. -/
def Definition.operation? : Definition ν → Option (Operation ν)
  | .operation o => some o
  | .fragment _ => none

/-- The set that the definition owns. -/
def Definition.selectionSet : Definition ν → SelectionSet ν
  | .operation o => o.selectionSet
  | .fragment f => f.selectionSet

/-- The operations of a document, in order. -/
def Document.operations (d : Document ν) : List (Operation ν) := d.definitions.filterMap (·.operation?)

/-- Whether an operation may be written as its selection set alone. -/
def Operation.isShorthand (o : Operation ν) : Bool :=
  o.kind = .query && o.name.isNone && o.variableDefinitions.isEmpty && o.directives.isEmpty

/-- The query that consists of a selection set alone. -/
def Operation.shorthand (set : SelectionSet ν) : Operation ν := ⟨.query, none, [], [], set⟩

end

end PersistedQuery
