import PersistedQuery.Document.Value

/-!
# Selections

A selection set is a list of fields, fragment spreads and inline fragments; fields and inline fragments own selection
sets in turn.  A field without subselections owns the empty set.

* `Selection.beq_iff`: selections are compared node by node.
-/

namespace PersistedQuery

/-- The use of a fragment by its name. -/
structure FragmentSpread (ν : Type) where
  name : String
  directives : List (Directive ν)
  deriving DecidableEq

/-- A field whose subselections are of type `σ`. -/
structure Field (ν σ : Type) where
  aliasName : Option String
  name : String
  arguments : List (Argument ν)
  directives : List (Directive ν)
  selectionSet : List σ
  deriving DecidableEq

/-- A fragment written in place, whose selections are of type `σ`. -/
structure InlineFragment (ν σ : Type) where
  typeCondition : Option String
  directives : List (Directive ν)
  selectionSet : List σ
  deriving DecidableEq

/-- An element of a selection set. -/
inductive Selection (ν : Type) where
  | field (f : Field ν (Selection ν))
  | spread (s : FragmentSpread ν)
  | inlineFragment (f : InlineFragment ν (Selection ν))

abbrev SelectionSet (ν : Type) := List (Selection ν)

/-! ### Fields of a set -/

/-- The name of the field that every object type has, which answers with the name of the type. -/
def typenameField : String := "__typename"

section Fields

variable {ν : Type}

/-- The field with this name and nothing else. -/
def Field.leaf (name : String) : Field ν (Selection ν) := ⟨none, name, [], [], []⟩

/-- The selection, if it is a field. -/
def Selection.field? : Selection ν → Option (Field ν (Selection ν))
  | .field f => some f
  | .spread _ | .inlineFragment _ => none

/-- Whether a selection of the set is itself a field named `__typename`, under any alias. -/
def SelectionSet.hasTypename (set : SelectionSet ν) : Bool :=
  set.any fun s => s.field?.any (·.name = typenameField)

/-- The set with one more selection at its end. -/
def SelectionSet.add (set : SelectionSet ν) (s : Selection ν) : SelectionSet ν := set ++ [s]

end Fields

/-! ### Equality of selections -/

section Equality

variable {ν : Type} [DecidableEq ν]

mutual

/-- Whether two selections are the same tree. -/
def Selection.beq : Selection ν → Selection ν → Bool
  | .field a, .field b =>
    (a.aliasName = b.aliasName && a.name = b.name && a.arguments = b.arguments && a.directives = b.directives) &&
      Selection.beqSet a.selectionSet b.selectionSet
  | .spread a, .spread b => a = b
  | .inlineFragment a, .inlineFragment b =>
    (a.typeCondition = b.typeCondition && a.directives = b.directives) &&
      Selection.beqSet a.selectionSet b.selectionSet
  | _, _ => false

private def Selection.beqSet : List (Selection ν) → List (Selection ν) → Bool
  | [], [] => true
  | a :: as, b :: bs => a.beq b && Selection.beqSet as bs
  | _, _ => false

end

mutual

theorem Selection.beq_iff (a b : Selection ν) : a.beq b = true ↔ a = b := by
  match a, b with
  | .field ⟨_, _, _, _, as⟩, .field ⟨_, _, _, _, bs⟩ =>
    simp [Selection.beq, Selection.beqSet_iff as bs, and_assoc]
  | .inlineFragment ⟨_, _, as⟩, .inlineFragment ⟨_, _, bs⟩ =>
    simp [Selection.beq, Selection.beqSet_iff as bs, and_assoc]
  | .spread _, .spread _ => simp [Selection.beq]
  | .field _, .spread _ | .field _, .inlineFragment _ | .spread _, .field _ | .spread _, .inlineFragment _
  | .inlineFragment _, .field _ | .inlineFragment _, .spread _ => simp [Selection.beq]

private theorem Selection.beqSet_iff (as bs : List (Selection ν)) : Selection.beqSet as bs = true ↔ as = bs := by
  match as, bs with
  | [], [] | [], _ :: _ | _ :: _, [] => simp [Selection.beqSet]
  | a :: as, b :: bs => simp [Selection.beqSet, a.beq_iff b, Selection.beqSet_iff as bs]

end

instance : DecidableEq (Selection ν) := fun a b => decidable_of_iff (a.beq b = true) (a.beq_iff b)

end Equality

end PersistedQuery
