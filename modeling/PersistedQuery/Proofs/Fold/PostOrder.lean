import PersistedQuery.Proofs.Fold.Following

/-!
# The order of the calls

A fold comes to every node after the nodes below it, from left to right, and tells the folder the place that the node
has in the tree which the fold started with.  The nodes that the folder gives decide what it receives later on, but
neither the order of the calls nor their places.

`Node.postOrder` enumerates the nodes of the tree, and `Node.Rebuilt` says of a list of exchanges that each call
receives its node with the nodes below it replaced by what the folder gave for them.

* `Node.fold_postOrder`: with a folder that gives a node at each step, a fold ends, calls the folder in that order and
  rebuilds its node from what it gets back.
-/

namespace PersistedQuery

variable {ν σ α : Type}

/-! ### The enumeration -/

mutual

/-- The nodes of a selection at a place in post-order, each by its kind and its place. -/
def Selection.postOrder (visit : Visit) : Selection ν → List (Callback × Visit)
  | .field f =>
    SelectionSet.postOrderFrom (visit.within .field) 0 f.selectionSet ++ [(.selectionSet, visit.within .field)] ++
      [(.field, visit)]
  | .spread _ => [(.fragmentSpread, visit)]
  | .inlineFragment f =>
    SelectionSet.postOrderFrom (visit.within .inlineFragment) 0 f.selectionSet ++
      [(.selectionSet, visit.within .inlineFragment)] ++ [(.inlineFragment, visit)]

/-- The nodes of the selections of a set from position `i` on. -/
def SelectionSet.postOrderFrom (visit : Visit) (i : Nat) : SelectionSet ν → List (Callback × Visit)
  | [] => []
  | s :: set => s.postOrder (visit.child i) ++ SelectionSet.postOrderFrom visit (i + 1) set

end

def SelectionSet.postOrder (visit : Visit) (set : SelectionSet ν) : List (Callback × Visit) :=
  SelectionSet.postOrderFrom visit 0 set ++ [(.selectionSet, visit)]

def Definition.postOrder (visit : Visit) : Definition ν → List (Callback × Visit)
  | .operation o => SelectionSet.postOrder (visit.within .operation) o.selectionSet ++ [(.operation, visit)]
  | .fragment f => SelectionSet.postOrder (visit.within .fragment) f.selectionSet ++ [(.fragment, visit)]

/-- The nodes of the definitions of a document from position `i` on. -/
def Definition.postOrderFrom (visit : Visit) (i : Nat) : List (Definition ν) → List (Callback × Visit)
  | [] => []
  | d :: ds => d.postOrder (visit.child i) ++ Definition.postOrderFrom visit (i + 1) ds

def Node.postOrder (visit : Visit) : Node ν → List (Callback × Visit)
  | .document d => Definition.postOrderFrom visit 0 d.definitions
  | .operation o => (Definition.operation o).postOrder visit
  | .fragment f => (Definition.fragment f).postOrder visit
  | .selectionSet set => SelectionSet.postOrder visit set
  | .selection s => s.postOrder visit
  | .field f => (Selection.field f).postOrder visit
  | .spread s => (Selection.spread s).postOrder visit
  | .inlineFragment f => (Selection.inlineFragment f).postOrder visit

/-! ### Rebuilding -/

/-- The folder receives a node at a place and gives another. -/
def Callback.exchange (callback : Callback) (visit : Visit) (node result : callback.Node ν) : Exchange ν :=
  ⟨⟨callback, node, visit⟩, result⟩

mutual

/-- The exchanges for a selection at a place, and the selection that comes of them. -/
inductive Selection.Rebuilt : Visit → Selection ν → List (Exchange ν) → Selection ν → Prop where
  | field {visit : Visit} {f new : Field ν (Selection ν)} {set : SelectionSet ν} {xs : List (Exchange ν)} :
      SelectionSet.Rebuilt (visit.within .field) f.selectionSet xs set →
      Selection.Rebuilt visit (.field f)
        (xs ++ [Callback.field.exchange visit { f with selectionSet := set } new]) (.field new)
  | spread {visit : Visit} {s new : FragmentSpread ν} :
      Selection.Rebuilt visit (.spread s) [Callback.fragmentSpread.exchange visit s new] (.spread new)
  | inlineFragment {visit : Visit} {f new : InlineFragment ν (Selection ν)} {set : SelectionSet ν}
      {xs : List (Exchange ν)} :
      SelectionSet.Rebuilt (visit.within .inlineFragment) f.selectionSet xs set →
      Selection.Rebuilt visit (.inlineFragment f)
        (xs ++ [Callback.inlineFragment.exchange visit { f with selectionSet := set } new]) (.inlineFragment new)

inductive SelectionSet.Rebuilt : Visit → SelectionSet ν → List (Exchange ν) → SelectionSet ν → Prop where
  | selections {visit : Visit} {set selections new : SelectionSet ν} {xs : List (Exchange ν)} :
      SelectionSet.RebuiltFrom visit 0 set xs selections →
      SelectionSet.Rebuilt visit set (xs ++ [Callback.selectionSet.exchange visit selections new]) new

/-- The exchanges for the selections of a set from some position on. -/
inductive SelectionSet.RebuiltFrom : Visit → Nat → SelectionSet ν → List (Exchange ν) → SelectionSet ν → Prop where
  | nil {visit : Visit} {i : Nat} : SelectionSet.RebuiltFrom visit i [] [] []
  | cons {visit : Visit} {i : Nat} {s newS : Selection ν} {set newSet : SelectionSet ν} {xs ys : List (Exchange ν)} :
      Selection.Rebuilt (visit.child i) s xs newS →
      SelectionSet.RebuiltFrom visit (i + 1) set ys newSet →
      SelectionSet.RebuiltFrom visit i (s :: set) (xs ++ ys) (newS :: newSet)

end

inductive Definition.Rebuilt : Visit → Definition ν → List (Exchange ν) → Definition ν → Prop where
  | operation {visit : Visit} {o new : Operation ν} {set : SelectionSet ν} {xs : List (Exchange ν)} :
      SelectionSet.Rebuilt (visit.within .operation) o.selectionSet xs set →
      Definition.Rebuilt visit (.operation o)
        (xs ++ [Callback.operation.exchange visit { o with selectionSet := set } new]) (.operation new)
  | fragment {visit : Visit} {f new : Fragment ν} {set : SelectionSet ν} {xs : List (Exchange ν)} :
      SelectionSet.Rebuilt (visit.within .fragment) f.selectionSet xs set →
      Definition.Rebuilt visit (.fragment f)
        (xs ++ [Callback.fragment.exchange visit { f with selectionSet := set } new]) (.fragment new)

/-- The exchanges for the definitions of a document from some position on. -/
inductive Definition.RebuiltFrom :
    Visit → Nat → List (Definition ν) → List (Exchange ν) → List (Definition ν) → Prop where
  | nil {visit : Visit} {i : Nat} : Definition.RebuiltFrom visit i [] [] []
  | cons {visit : Visit} {i : Nat} {d newD : Definition ν} {ds newDs : List (Definition ν)}
      {xs ys : List (Exchange ν)} :
      Definition.Rebuilt (visit.child i) d xs newD →
      Definition.RebuiltFrom visit (i + 1) ds ys newDs →
      Definition.RebuiltFrom visit i (d :: ds) (xs ++ ys) (newD :: newDs)

/-- The exchanges for a node at a place, and the node that comes of them.  It is of the same kind. -/
def Node.Rebuilt (visit : Visit) : Node ν → List (Exchange ν) → Node ν → Prop
  | .document d, xs, .document new => Definition.RebuiltFrom visit 0 d.definitions xs new.definitions
  | .operation o, xs, .operation new => Definition.Rebuilt visit (.operation o) xs (.operation new)
  | .fragment f, xs, .fragment new => Definition.Rebuilt visit (.fragment f) xs (.fragment new)
  | .selectionSet set, xs, .selectionSet new => SelectionSet.Rebuilt visit set xs new
  | .selection s, xs, .selection new => Selection.Rebuilt visit s xs new
  | .field f, xs, .field new => Selection.Rebuilt visit (.field f) xs (.field new)
  | .spread s, xs, .spread new => Selection.Rebuilt visit (.spread s) xs (.spread new)
  | .inlineFragment f, xs, .inlineFragment new => Selection.Rebuilt visit (.inlineFragment f) xs (.inlineFragment new)
  | _, _, _ => False

/-! ### Exchanges come in post-order -/

/-- The kind and the place of the node that a call is for. -/
def Call.position (call : Call ν) : Callback × Visit := (call.callback, call.visit)

-- by recursion on the derivations, whose rules put the exchanges together as the enumeration does the nodes
mutual

theorem Selection.Rebuilt.map_position : ∀ {visit : Visit} {s new : Selection ν} {xs : List (Exchange ν)},
    s.Rebuilt visit xs new → xs.map (·.position) = s.postOrder visit
  | _, _, _, _, .field set => by
    rw [List.map_append, SelectionSet.Rebuilt.map_position set]
    rfl
  | _, _, _, _, .spread => rfl
  | _, _, _, _, .inlineFragment set => by
    rw [List.map_append, SelectionSet.Rebuilt.map_position set]
    rfl

theorem SelectionSet.Rebuilt.map_position : ∀ {visit : Visit} {set new : SelectionSet ν} {xs : List (Exchange ν)},
    SelectionSet.Rebuilt visit set xs new → xs.map (·.position) = SelectionSet.postOrder visit set
  | _, _, _, _, .selections selections => by
    rw [List.map_append, SelectionSet.RebuiltFrom.map_position selections]
    rfl

theorem SelectionSet.RebuiltFrom.map_position :
    ∀ {visit : Visit} {i : Nat} {set new : SelectionSet ν} {xs : List (Exchange ν)},
      SelectionSet.RebuiltFrom visit i set xs new → xs.map (·.position) = SelectionSet.postOrderFrom visit i set
  | _, _, _, _, _, .nil => rfl
  | _, _, _, _, _, .cons first rest => by
    rw [List.map_append, Selection.Rebuilt.map_position first, SelectionSet.RebuiltFrom.map_position rest]
    rfl

end

section

variable {visit : Visit} {xs : List (Exchange ν)}

theorem Definition.Rebuilt.map_position {d new : Definition ν} (h : d.Rebuilt visit xs new) :
    xs.map (·.position) = d.postOrder visit := by
  cases h with
  | operation set | fragment set =>
    rw [List.map_append, set.map_position]
    rfl

theorem Definition.RebuiltFrom.map_position {i : Nat} {ds new : List (Definition ν)}
    (h : Definition.RebuiltFrom visit i ds xs new) :
    xs.map (·.position) = Definition.postOrderFrom visit i ds := by
  induction h with
  | nil => rfl
  | cons first _ ih =>
    rw [List.map_append, first.map_position, ih]
    rfl

/-- The calls come in post-order, whatever the folder gives. -/
theorem Node.Rebuilt.map_position {node new : Node ν} (h : node.Rebuilt visit xs new) :
    xs.map (·.position) = node.postOrder visit := by
  unfold Node.Rebuilt at h
  split at h
  · exact Definition.RebuiltFrom.map_position h
  · exact Definition.Rebuilt.map_position h
  · exact Definition.Rebuilt.map_position h
  · exact SelectionSet.Rebuilt.map_position h
  · exact Selection.Rebuilt.map_position h
  · exact Selection.Rebuilt.map_position h
  · exact Selection.Rebuilt.map_position h
  · exact Selection.Rebuilt.map_position h
  · exact h.elim

end

/-! ### Dialogues rebuild their nodes -/

open Dialogue

section

variable {visit : Visit} {xs : List (Exchange ν)}

theorem Dialogue.Reaches.of_call {callback : Callback} {node result : callback.Node ν}
    (h : (Dialogue.call callback node visit).Reaches xs (.done result)) :
    xs = [callback.exchange visit node result] := by
  cases h with
  | step h =>
    cases h
    rfl

theorem Dialogue.Reaches.of_thenCall {d : Dialogue ν α} {callback : Callback} {node : α → callback.Node ν}
    {result : callback.Node ν} (h : (d.thenCall callback node visit).Reaches xs (.done result)) :
    ∃ ys a, d.Reaches ys (.done a) ∧ xs = ys ++ [callback.exchange visit (node a) result] := by
  obtain ⟨ys, zs, a, rfl, below, own⟩ := h.of_bind
  exact ⟨ys, a, below, by rw [own.of_call]⟩

private theorem SelectionSet.rebuiltFrom_of_reaches {set new : SelectionSet ν} {i : Nat}
    (each : ∀ s ∈ set, ∀ {visit xs new}, (s.dialogue visit).Reaches xs (.done new) → s.Rebuilt visit xs new)
    (h : (SelectionSet.dialogueFrom visit i set).Reaches xs (.done new)) :
    SelectionSet.RebuiltFrom visit i set xs new := by
  induction set generalizing i xs new with
  | nil =>
    cases h
    exact .nil
  | cons s set ih =>
    obtain ⟨ys, zs, newS, rfl, first, rest⟩ := Reaches.of_bind h
    obtain ⟨newSet, rest', rfl⟩ := rest.of_map
    exact .cons (each s List.mem_cons_self first) (ih (fun s hs => each s (List.mem_cons_of_mem _ hs)) rest')

private theorem SelectionSet.rebuilt_of_forall {set new : SelectionSet ν}
    (each : ∀ s ∈ set, ∀ {visit xs new}, (s.dialogue visit).Reaches xs (.done new) → s.Rebuilt visit xs new)
    (h : (SelectionSet.dialogue visit set).Reaches xs (.done new)) : SelectionSet.Rebuilt visit set xs new := by
  obtain ⟨ys, selections, below, rfl⟩ := h.of_thenCall
  exact .selections (SelectionSet.rebuiltFrom_of_reaches each below)

theorem Selection.rebuilt_of_reaches {s new : Selection ν} (h : (s.dialogue visit).Reaches xs (.done new)) :
    s.Rebuilt visit xs new := by
  induction s using Selection.induction generalizing visit xs new with
  | field f ih =>
    obtain ⟨newF, own, rfl⟩ := Reaches.of_map h
    obtain ⟨ys, set, below, rfl⟩ := own.of_thenCall
    exact .field (SelectionSet.rebuilt_of_forall ih below)
  | spread s =>
    obtain ⟨newS, own, rfl⟩ := Reaches.of_map h
    rw [own.of_call]
    exact .spread
  | inlineFragment f ih =>
    obtain ⟨newF, own, rfl⟩ := Reaches.of_map h
    obtain ⟨ys, set, below, rfl⟩ := own.of_thenCall
    exact .inlineFragment (SelectionSet.rebuilt_of_forall ih below)

theorem SelectionSet.rebuilt_of_reaches {set new : SelectionSet ν}
    (h : (SelectionSet.dialogue visit set).Reaches xs (.done new)) : SelectionSet.Rebuilt visit set xs new :=
  SelectionSet.rebuilt_of_forall (fun _ _ _ _ _ => Selection.rebuilt_of_reaches) h

theorem Definition.rebuilt_of_reaches {d new : Definition ν} (h : (d.dialogue visit).Reaches xs (.done new)) :
    d.Rebuilt visit xs new := by
  cases d with
  | operation o =>
    obtain ⟨newO, own, rfl⟩ := Reaches.of_map h
    obtain ⟨ys, set, below, rfl⟩ := own.of_thenCall
    exact .operation (SelectionSet.rebuilt_of_reaches below)
  | fragment f =>
    obtain ⟨newF, own, rfl⟩ := Reaches.of_map h
    obtain ⟨ys, set, below, rfl⟩ := own.of_thenCall
    exact .fragment (SelectionSet.rebuilt_of_reaches below)

private theorem Definition.rebuiltFrom_of_reaches {ds new : List (Definition ν)} {i : Nat}
    (h : (Definition.dialogueFrom visit i ds).Reaches xs (.done new)) : Definition.RebuiltFrom visit i ds xs new := by
  induction ds generalizing i xs new with
  | nil =>
    cases h
    exact .nil
  | cons d ds ih =>
    obtain ⟨ys, zs, newD, rfl, first, rest⟩ := Reaches.of_bind h
    obtain ⟨newDs, rest', rfl⟩ := rest.of_map
    exact .cons (Definition.rebuilt_of_reaches first) (ih rest')

/-- The exchanges that bring the dialogue of a node to its end rebuild the node. -/
theorem Node.rebuilt_of_reaches {node new : Node ν} (h : (node.dialogue visit).Reaches xs (.done new)) :
    node.Rebuilt visit xs new := by
  cases node <;> obtain ⟨own, ends, rfl⟩ := Reaches.of_map h
  case document d =>
    obtain ⟨ds, below, rfl⟩ := Reaches.of_map ends
    exact Definition.rebuiltFrom_of_reaches below
  case operation o => exact Definition.rebuilt_of_reaches (d := .operation o) (ends.map Definition.operation)
  case fragment f => exact Definition.rebuilt_of_reaches (d := .fragment f) (ends.map Definition.fragment)
  case selectionSet set => exact SelectionSet.rebuilt_of_reaches ends
  case selection s => exact Selection.rebuilt_of_reaches ends
  case field f => exact Selection.rebuilt_of_reaches (s := .field f) (ends.map Selection.field)
  case spread s => exact Selection.rebuilt_of_reaches (s := .spread s) (ends.map Selection.spread)
  case inlineFragment f =>
    exact Selection.rebuilt_of_reaches (s := .inlineFragment f) (ends.map Selection.inlineFragment)

end

/-- With a folder that gives a node at each step, a fold ends.  It calls the folder for the nodes of its tree in
post-order and at their places, each call receives its node with the nodes below it replaced by what the folder gave for
them, and the fold gives the node that comes of these exchanges. -/
theorem Node.fold_postOrder {F : Folder ν σ} (succeeds : F.Succeeds) (node : Node ν) (s : σ) :
    ∃ exchanges result t,
      node.fold F s = (.ok result, t) ∧ node.fold F.recording ([], s) = (.ok result, exchanges.map (·.toCall), t) ∧
        F.Answers s exchanges t ∧ exchanges.map (·.position) = node.postOrder {} ∧
          node.Rebuilt {} exchanges result := by
  obtain ⟨exchanges, result, t, reaches, answers⟩ := exists_reaches_done succeeds (node.dialogue {}) s
  have rebuilt := Node.rebuilt_of_reaches reaches
  exact ⟨exchanges, result, t, Node.fold_of_reaches reaches answers,
    Node.fold_of_reaches reaches (answers.recording []), answers, rebuilt.map_position, rebuilt⟩

/-- The folder that counts its calls and gives each selection set twice over. -/
def Folder.twice : Folder ν Nat := fun callback node _ n =>
  (.ok (match callback, node with
    | .selectionSet, set => set ++ set
    | _, node => node), n + 1)

theorem Folder.twice_succeeds : (Folder.twice (ν := ν)).Succeeds := fun _ _ _ _ => ⟨_, _, rfl⟩

/-- The operation `{ a { b } ...F }`. -/
def Node.nested : Node Numeral :=
  .operation (.shorthand [.field ⟨none, "a", [], [], [.field (.leaf "b")]⟩, .spread ⟨"F", []⟩])

/-- Both sets that are not empty grow twice as long, but the calls keep to the tree that the fold started with. -/
theorem Node.fold_postOrder_twice :
    (Folder.twice (ν := Numeral)).Succeeds ∧
      ∃ exchanges : List (Exchange Numeral),
        exchanges.map (·.position) =
          [(.selectionSet, ⟨⟨[.selectionSet, .index 0, .selectionSet, .index 0, .selectionSet]⟩, .field⟩),
            (.field, ⟨⟨[.selectionSet, .index 0, .selectionSet, .index 0]⟩, .field⟩),
            (.selectionSet, ⟨⟨[.selectionSet, .index 0, .selectionSet]⟩, .field⟩),
            (.field, ⟨⟨[.selectionSet, .index 0]⟩, .operation⟩),
            (.fragmentSpread, ⟨⟨[.selectionSet, .index 1]⟩, .operation⟩),
            (.selectionSet, ⟨⟨[.selectionSet]⟩, .operation⟩), (.operation, {})] ∧
          Node.nested.Rebuilt {} exchanges
            (.operation (.shorthand
              [.field ⟨none, "a", [], [], [.field (.leaf "b"), .field (.leaf "b")]⟩, .spread ⟨"F", []⟩,
                .field ⟨none, "a", [], [], [.field (.leaf "b"), .field (.leaf "b")]⟩, .spread ⟨"F", []⟩])) := by
  obtain ⟨exchanges, result, t, run, -, -, positions, rebuilt⟩ :=
    Node.fold_postOrder Folder.twice_succeeds Node.nested 0
  cases run
  exact ⟨Folder.twice_succeeds, exchanges, positions, rebuilt⟩

end PersistedQuery
