import PersistedQuery.Fold.Node

/-!
# Scripted folders

A folder that is given by data: which node it fails at, which names it replaces, and how it edits selection sets.
-/

namespace PersistedQuery

/-- The name of a kind of step in messages. -/
def Callback.name : Callback → String
  | .operation => "operation"
  | .fragment => "fragment"
  | .selectionSet => "selection_set"
  | .field => "field"
  | .inlineFragment => "inline_fragment"
  | .fragmentSpread => "fragment_spread"

section

variable {ν : Type}

/-- The name of a node, which for an inline fragment is its type condition. -/
def Callback.nodeName? : (callback : Callback) → callback.Node ν → Option String
  | .operation, o => o.name
  | .fragment, f => some f.name
  | .selectionSet, _ => none
  | .field, f => some f.name
  | .inlineFragment, f => f.typeCondition
  | .fragmentSpread, s => some s.name

/-- The node with another name, if it has one. -/
def Callback.rename (f : String → String) : (callback : Callback) → callback.Node ν → callback.Node ν
  | .operation, o => { o with name := o.name.map f }
  | .fragment, x => { x with name := f x.name }
  | .selectionSet, set => set
  | .field, x => { x with name := f x.name }
  | .inlineFragment, x => { x with typeCondition := x.typeCondition.map f }
  | .fragmentSpread, s => { s with name := f s.name }

end

/-- The step that a scripted folder fails at: any of its kind, or only one with this name or at this path. -/
structure Refusal where
  callback : Callback
  name : Option String
  path : Option String

/-- The field that a scripted folder adds to selection sets, if only certain owners have it then to theirs. -/
structure Addition where
  name : String
  owners : Option (List Owner)

structure Script where
  refusal : Option Refusal
  /-- The names to replace in the nodes of a kind. -/
  newNames : Callback → List (String × String)
  /-- The names of the fields to take out of selection sets. -/
  removed : List String
  isReversed : Bool
  addition : Option Addition

namespace Script

variable {ν σ : Type}

def refuses (script : Script) (callback : Callback) (node : callback.Node ν) (visit : Visit) : Bool :=
  script.refusal.any fun r =>
    r.callback = callback && r.name.all (some · = callback.nodeName? node) &&
      r.path.all (· = String.ofList visit.path.text)

def refusalError (callback : Callback) (node : callback.Node ν) (visit : Visit) : Error where
  message := "Unexpected " ++ callback.name ++ " '" ++ (callback.nodeName? node).getD "" ++ "'"
  context := String.ofList visit.path.text

/-- Takes fields out, then turns the order round, then adds a field unless nothing is left. -/
def edit (script : Script) (set : SelectionSet ν) (visit : Visit) : SelectionSet ν :=
  let kept := set.filter fun s => !s.field?.any (script.removed.contains ·.name)
  let kept := if script.isReversed then kept.reverse else kept
  match script.addition with
  | none => kept
  | some a =>
    if kept.isEmpty || !a.owners.all (·.contains visit.parent) then kept
    else SelectionSet.add kept (.field (.leaf a.name))

def folder (script : Script) : Folder ν σ := fun callback node visit =>
  if script.refuses callback node visit then
    throw (refusalError callback node visit)
  else
    let node := callback.rename (fun name => ((script.newNames callback).lookup name).getD name) node
    match callback, node with
    | .selectionSet, set => pure (script.edit set visit)
    | _, node => pure node

end Script

end PersistedQuery
