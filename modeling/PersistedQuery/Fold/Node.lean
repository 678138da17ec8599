import PersistedQuery.Document.Canonical
import PersistedQuery.Fold.Folder

/-!
# Nodes

The nodes that a fold can start at, as one type.
-/

namespace PersistedQuery

inductive Node (ν : Type) where
  | document (d : Document ν)
  | operation (o : Operation ν)
  | fragment (f : Fragment ν)
  | selectionSet (set : SelectionSet ν)
  | selection (s : Selection ν)
  | field (f : Field ν (Selection ν))
  | spread (s : FragmentSpread ν)
  | inlineFragment (f : InlineFragment ν (Selection ν))
  deriving DecidableEq

def Node.text : Node Numeral → List Char
  | .document d => d.text
  | .operation o => o.text
  | .fragment f => f.text
  | .selectionSet set => SelectionSet.text set
  | .selection s => s.text
  | .field f => f.text
  | .spread s => s.text
  | .inlineFragment f => f.text

/-- The node that a step received. -/
def Node.received {ν : Type} : (callback : Callback) → callback.Node ν → Node ν
  | .operation, o => .operation o
  | .fragment, f => .fragment f
  | .selectionSet, set => .selectionSet set
  | .field, f => .field f
  | .inlineFragment, f => .inlineFragment f
  | .fragmentSpread, s => .spread s

section

variable {ν σ : Type}

def Node.foldM (F : Folder ν σ) : Node ν → FoldM σ (Node ν)
  | .document d => .document <$> d.fold F
  | .operation o => .operation <$> o.fold F
  | .fragment f => .fragment <$> f.fold F
  | .selectionSet set => .selectionSet <$> SelectionSet.fold F set
  | .selection s => .selection <$> s.fold F
  | .field f => .field <$> f.fold F
  | .spread s => .spread <$> s.fold F
  | .inlineFragment f => .inlineFragment <$> f.fold F

/-- The node that a folder makes of another, which starts in state `s`, and the state that the folder ends in. -/
def Node.fold (F : Folder ν σ) (node : Node ν) (s : σ) : Except Error (Node ν) × σ := (node.foldM F).start s

end

/-! ### Recording -/

/-- One step of a folder: the node that it received, and where. -/
structure Call (ν : Type) where
  callback : Callback
  node : callback.Node ν
  visit : Visit

/-- The folder that notes each call before it makes it. -/
def Folder.recording {ν σ : Type} (F : Folder ν σ) : Folder ν (List (Call ν) × σ) := fun callback node visit =>
  fun (calls, s) =>
    let (result, s) := F callback node visit s
    (result, calls ++ [⟨callback, node, visit⟩], s)

end PersistedQuery
