import PersistedQuery.Fold.Folder
import PersistedQuery.Log

/-!
# Adding `__typename`

A selection set that selects something but not `__typename` gains that field at its end, if the policy admits it.
-/

namespace PersistedQuery

/-- The selection sets that may gain a `__typename` field. -/
inductive TypenamePolicy where
  /-- All of them. -/
  | all
  /-- All but those of operations. -/
  | exceptRoot
  deriving DecidableEq

instance : Inhabited TypenamePolicy := ⟨.exceptRoot⟩

/-- Whether the set at a place may gain the field. -/
def TypenamePolicy.admits : TypenamePolicy → Visit → Bool
  | .all, _ => true
  | .exceptRoot, visit => !visit.isOperationRoot

/-- Whether the set at a place gains the field. -/
def TypenamePolicy.needs {ν : Type} (policy : TypenamePolicy) (set : SelectionSet ν) (visit : Visit) : Bool :=
  !set.isEmpty && !SelectionSet.hasTypename set && policy.admits visit

/-- The folder that adds the field where it is needed, and logs it. -/
def TypenamePolicy.folder {ν : Type} (policy : TypenamePolicy) : Folder ν (List Event)
  | .selectionSet, set, visit =>
    if policy.needs set visit then do
      log (.addingTypename visit.path visit.parent)
      return SelectionSet.add set (.field (.leaf typenameField))
    else
      pure set
  | _, node, _ => pure node

/-- The document with `__typename` in all the selection sets that need it. -/
def Document.addTypename {ν : Type} (policy : TypenamePolicy) (d : Document ν) : LogM (Document ν) :=
  (d.fold policy.folder).start

end PersistedQuery
