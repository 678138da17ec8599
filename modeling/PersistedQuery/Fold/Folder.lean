import PersistedQuery.Document.Traversal
import PersistedQuery.Error
import PersistedQuery.Fold.Visit

/-!
# Folders

A folder changes a document bottom up.  It has a step for each kind of node, which receives the node with its children
already changed and the place of the node, and gives the node to put there or an error, which ends the fold.  What a
fold does not go into, the arguments, directives and variables of a node, is copied for it.

The place is threaded through the whole fold: each way down is taken back on the way up, also after an error.
-/

namespace PersistedQuery

/-- The kinds of nodes that a folder has a step for. -/
inductive Callback where
  | operation
  | fragment
  | selectionSet
  | field
  | inlineFragment
  | fragmentSpread
  deriving DecidableEq

/-- The nodes of a kind. -/
abbrev Callback.Node (ν : Type) : Callback → Type
  | .operation => Operation ν
  | .fragment => Fragment ν
  | .selectionSet => SelectionSet ν
  | .field => Field ν (Selection ν)
  | .inlineFragment => InlineFragment ν (Selection ν)
  | .fragmentSpread => FragmentSpread ν

/-- The steps of a folder with a state of type `σ`. -/
abbrev Folder (ν σ : Type) :=
  (callback : Callback) → callback.Node ν → Visit → ExceptT Error (StateM σ) (callback.Node ν)

/-- The folder that changes nothing. -/
def Folder.keep {ν σ : Type} : Folder ν σ := fun _ node _ => pure node

/-- A fold under way.  The place that it has reached and the state of the folder outlive an error. -/
abbrev FoldM (σ : Type) := ExceptT Error (StateM (Visit × σ))

namespace FoldM

variable {ν σ α β : Type}

/-- Runs the step of a kind of node at the current place. -/
def call (F : Folder ν σ) (callback : Callback) (node : callback.Node ν) : FoldM σ (callback.Node ν) :=
  fun (visit, s) =>
    let r := F callback node visit s
    (r.1, visit, r.2)

/-- Goes down to the child at a position and back. -/
def atIndex (i : Nat) (fold : FoldM σ α) : FoldM σ α :=
  fun (visit, s) =>
    let r := fold ({ visit with path := visit.path.push (.index i) }, s)
    (r.1, { r.2.1 with path := r.2.1.path.pop }, r.2.2)

/-- Enters the selection set of an owner and leaves it again. -/
def inSelectionSet (owner : Owner) (fold : FoldM σ α) : FoldM σ α :=
  fun (visit, s) =>
    let r := fold ({ path := visit.path.push .selectionSet, parent := owner }, s)
    (r.1, { path := r.2.1.path.pop, parent := visit.parent }, r.2.2)

/-- Runs a fold from the top. -/
def start (fold : FoldM σ α) : ExceptT Error (StateM σ) α :=
  fun s =>
    let r := fold ({}, s)
    (r.1, r.2.2)

/-- After an error nothing more is run, and the place stays where the error left it. -/
theorem bind_apply (x : FoldM σ α) (f : α → FoldM σ β) (p : Visit × σ) :
    (x >>= f) p =
      match x p with
      | (.ok a, q) => f a q
      | (.error e, q) => (.error e, q) := by
  change (match x p with | (r, q) => ExceptT.bindCont f r q) = _
  rcases x p with ⟨_ | _, _⟩ <;> rfl

theorem map_apply (f : α → β) (x : FoldM σ α) (p : Visit × σ) : (f <$> x) p = ((x p).1.map f, (x p).2) := by
  rw [← bind_pure_comp, bind_apply]
  rcases x p with ⟨_ | _, _⟩ <;> rfl

end FoldM

open FoldM

section

variable {ν σ : Type} (F : Folder ν σ)

/-! ### Selections -/

/-- Folds a set after its selections. -/
def SelectionSet.foldWith (selections : FoldM σ (SelectionSet ν)) : FoldM σ (SelectionSet ν) :=
  selections >>= call F .selectionSet

/-- Folds a field after its selection set. -/
def Field.foldWith (f : Field ν (Selection ν)) (set : FoldM σ (SelectionSet ν)) :
    FoldM σ (Field ν (Selection ν)) := do
  call F .field (f.copyWith (← inSelectionSet .field set))

def FragmentSpread.fold (s : FragmentSpread ν) : FoldM σ (FragmentSpread ν) := call F .fragmentSpread s.copy

/-- Folds an inline fragment after its selection set. -/
def InlineFragment.foldWith (f : InlineFragment ν (Selection ν)) (set : FoldM σ (SelectionSet ν)) :
    FoldM σ (InlineFragment ν (Selection ν)) := do
  call F .inlineFragment (f.copyWith (← inSelectionSet .inlineFragment set))

mutual

def Selection.fold : Selection ν → FoldM σ (Selection ν)
  | .field f => .field <$> f.foldWith F (SelectionSet.foldWith F (SelectionSet.foldFrom 0 f.selectionSet))
  | .spread s => .spread <$> s.fold F
  | .inlineFragment f =>
    .inlineFragment <$> f.foldWith F (SelectionSet.foldWith F (SelectionSet.foldFrom 0 f.selectionSet))

/-- Folds the selections of a set from position `i` on. -/
def SelectionSet.foldFrom (i : Nat) : SelectionSet ν → FoldM σ (SelectionSet ν)
  | [] => pure []
  | s :: set => return (← atIndex i s.fold) :: (← SelectionSet.foldFrom (i + 1) set)

end

def SelectionSet.fold (set : SelectionSet ν) : FoldM σ (SelectionSet ν) :=
  SelectionSet.foldWith F (SelectionSet.foldFrom F 0 set)

def Field.fold (f : Field ν (Selection ν)) : FoldM σ (Field ν (Selection ν)) :=
  f.foldWith F (SelectionSet.fold F f.selectionSet)

def InlineFragment.fold (f : InlineFragment ν (Selection ν)) : FoldM σ (InlineFragment ν (Selection ν)) :=
  f.foldWith F (SelectionSet.fold F f.selectionSet)

/-! ### Definitions -/

/-- Folds an operation after its selection set. -/
def Operation.fold (o : Operation ν) : FoldM σ (Operation ν) := do
  call F .operation (o.copyWith (← inSelectionSet .operation (SelectionSet.fold F o.selectionSet)))

/-- Folds a fragment after its selection set. -/
def Fragment.fold (f : Fragment ν) : FoldM σ (Fragment ν) := do
  call F .fragment (f.copyWith (← inSelectionSet .fragment (SelectionSet.fold F f.selectionSet)))

def Definition.fold : Definition ν → FoldM σ (Definition ν)
  | .operation o => .operation <$> o.fold F
  | .fragment f => .fragment <$> f.fold F

/-- Folds the definitions of a document from position `i` on. -/
def Definition.foldFrom (i : Nat) : List (Definition ν) → FoldM σ (List (Definition ν))
  | [] => pure []
  | d :: ds => return (← atIndex i (d.fold F)) :: (← Definition.foldFrom (i + 1) ds)

def Document.fold (d : Document ν) : FoldM σ (Document ν) :=
  return ⟨← Definition.foldFrom F 0 d.definitions⟩

end

end PersistedQuery
