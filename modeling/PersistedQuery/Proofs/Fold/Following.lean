import PersistedQuery.Proofs.Fold.Dialogue
import PersistedQuery.Proofs.Runs
import PersistedQuery.Proofs.Tree

/-!
# The dialogue of a fold

The dialogue of a node is a plain recursion on it, which is told the place of each node that it comes to.  A fold
threads its place instead, and takes each way down back on the way up.  It still follows the dialogue with any folder,
also where the folder fails, and is then back at the place where it began (`Node.follows`).
-/

namespace PersistedQuery

/-- The place of the child at a position. -/
def Visit.child (visit : Visit) (i : Nat) : Visit := ⟨visit.path.push (.index i), visit.parent⟩

/-- The place of the selection set of an owner. -/
def Visit.within (visit : Visit) (owner : Owner) : Visit := ⟨visit.path.push .selectionSet, owner⟩

variable {ν σ α β : Type}

/-! ### Dialogues of nodes -/

/-- The dialogue of what is below a node, and then the call for the node with what came of it. -/
def Dialogue.thenCall (d : Dialogue ν α) (callback : Callback) (node : α → callback.Node ν) (visit : Visit) :
    Dialogue ν (callback.Node ν) :=
  d.bind fun a => .call callback (node a) visit

mutual

def Selection.dialogue (visit : Visit) : Selection ν → Dialogue ν (Selection ν)
  | .field f =>
    (((SelectionSet.dialogueFrom (visit.within .field) 0 f.selectionSet).thenCall .selectionSet id
      (visit.within .field)).thenCall .field (fun new => { f with selectionSet := new }) visit).map .field
  | .spread s => (Dialogue.call .fragmentSpread s visit).map .spread
  | .inlineFragment f =>
    (((SelectionSet.dialogueFrom (visit.within .inlineFragment) 0 f.selectionSet).thenCall .selectionSet id
      (visit.within .inlineFragment)).thenCall .inlineFragment (fun new => { f with selectionSet := new })
        visit).map .inlineFragment

/-- The dialogue of the selections of a set from position `i` on. -/
def SelectionSet.dialogueFrom (visit : Visit) (i : Nat) : SelectionSet ν → Dialogue ν (SelectionSet ν)
  | [] => .done []
  | s :: set =>
    (s.dialogue (visit.child i)).bind fun new => (SelectionSet.dialogueFrom visit (i + 1) set).map (new :: ·)

end

def SelectionSet.dialogue (visit : Visit) (set : SelectionSet ν) : Dialogue ν (SelectionSet ν) :=
  (SelectionSet.dialogueFrom visit 0 set).thenCall .selectionSet id visit

def Field.dialogue (visit : Visit) (f : Field ν (Selection ν)) : Dialogue ν (Field ν (Selection ν)) :=
  (SelectionSet.dialogue (visit.within .field) f.selectionSet).thenCall .field
    (fun new => { f with selectionSet := new }) visit

def InlineFragment.dialogue (visit : Visit) (f : InlineFragment ν (Selection ν)) :
    Dialogue ν (InlineFragment ν (Selection ν)) :=
  (SelectionSet.dialogue (visit.within .inlineFragment) f.selectionSet).thenCall .inlineFragment
    (fun new => { f with selectionSet := new }) visit

def Operation.dialogue (visit : Visit) (o : Operation ν) : Dialogue ν (Operation ν) :=
  (SelectionSet.dialogue (visit.within .operation) o.selectionSet).thenCall .operation
    (fun new => { o with selectionSet := new }) visit

def Fragment.dialogue (visit : Visit) (f : Fragment ν) : Dialogue ν (Fragment ν) :=
  (SelectionSet.dialogue (visit.within .fragment) f.selectionSet).thenCall .fragment
    (fun new => { f with selectionSet := new }) visit

def Definition.dialogue (visit : Visit) : Definition ν → Dialogue ν (Definition ν)
  | .operation o => (o.dialogue visit).map .operation
  | .fragment f => (f.dialogue visit).map .fragment

/-- The dialogue of the definitions of a document from position `i` on. -/
def Definition.dialogueFrom (visit : Visit) (i : Nat) : List (Definition ν) → Dialogue ν (List (Definition ν))
  | [] => .done []
  | d :: ds => (d.dialogue (visit.child i)).bind fun new => (Definition.dialogueFrom visit (i + 1) ds).map (new :: ·)

def Document.dialogue (visit : Visit) (d : Document ν) : Dialogue ν (Document ν) :=
  (Definition.dialogueFrom visit 0 d.definitions).map Document.mk

def Node.dialogue (visit : Visit) : Node ν → Dialogue ν (Node ν)
  | .document d => (d.dialogue visit).map .document
  | .operation o => (o.dialogue visit).map .operation
  | .fragment f => (f.dialogue visit).map .fragment
  | .selectionSet set => (SelectionSet.dialogue visit set).map .selectionSet
  | .selection s => (s.dialogue visit).map .selection
  | .field f => (f.dialogue visit).map .field
  | .spread s => (Dialogue.call .fragmentSpread s visit).map .spread
  | .inlineFragment f => (f.dialogue visit).map .inlineFragment

/-! ### Folds that follow a dialogue -/

namespace FoldM

variable {F : Folder ν σ} {x : FoldM σ α} {visit : Visit} {d : Dialogue ν α}

/-- At this place the fold does what the dialogue does with the folder, and it comes back to the place, whatever the
outcome is. -/
def Follows (F : Folder ν σ) (x : FoldM σ α) (visit : Visit) (d : Dialogue ν α) : Prop :=
  ∀ s, x (visit, s) = ((d.run F s).1, visit, (d.run F s).2)

theorem follows_pure (a : α) : Follows F (pure a) visit (.done a) := fun _ => rfl

/-- A step may be given a copy of its node. -/
theorem follows_call {callback : Callback} {copy node : callback.Node ν} (copies : copy = node) :
    Follows F (call F callback copy) visit (.call callback node visit) := by
  intro s
  subst copies
  simp only [call, Dialogue.call, Dialogue.run]
  split <;> simp_all

theorem Follows.bind {f : α → FoldM σ β} {g : α → Dialogue ν β} (hx : Follows F x visit d)
    (hf : ∀ a, Follows F (f a) visit (g a)) : Follows F (x >>= f) visit (d.bind g) := by
  intro s
  rw [bind_apply, hx, Dialogue.run_bind]
  rcases d.run F s with ⟨_ | a, t⟩
  · rfl
  · exact hf a t

theorem Follows.map (f : α → β) (hx : Follows F x visit d) : Follows F (f <$> x) visit (d.map f) := by
  rw [← bind_pure_comp]
  exact hx.bind fun a => follows_pure (f a)

theorem Follows.atIndex {i : Nat} (hx : Follows F x (visit.child i) d) : Follows F (atIndex i x) visit d :=
  fun s => atIndex_back (hx s)

theorem Follows.inSelectionSet {owner : Owner} (hx : Follows F x (visit.within owner) d) :
    Follows F (inSelectionSet owner x) visit d :=
  fun s => inSelectionSet_back (hx s)

theorem Follows.thenCall {callback : Callback} {copy node : α → callback.Node ν} (hx : Follows F x visit d)
    (copies : ∀ a, copy a = node a) :
    Follows F (x >>= fun a => call F callback (copy a)) visit (d.thenCall callback node visit) :=
  hx.bind fun a => follows_call (copies a)

theorem Follows.start (hx : Follows F x {} d) (s : σ) : x.start s = d.run F s := by
  unfold FoldM.start
  rw [hx s]

end FoldM

/-! ### Nodes -/

open FoldM

variable (F : Folder ν σ)

private theorem SelectionSet.follows_foldFrom {set : SelectionSet ν}
    (h : ∀ s ∈ set, ∀ visit, Follows F (s.fold F) visit (s.dialogue visit)) (i : Nat) (visit : Visit) :
    Follows F (SelectionSet.foldFrom F i set) visit (SelectionSet.dialogueFrom visit i set) := by
  induction set generalizing i with
  | nil => exact follows_pure []
  | cons s set ih =>
    rw [List.forall_mem_cons] at h
    exact (h.1 (visit.child i)).atIndex.bind fun new => (ih h.2 (i + 1)).bind fun rest => follows_pure (new :: rest)

private theorem SelectionSet.follows_of_forall {set : SelectionSet ν}
    (h : ∀ s ∈ set, ∀ visit, Follows F (s.fold F) visit (s.dialogue visit)) (visit : Visit) :
    Follows F (SelectionSet.fold F set) visit (SelectionSet.dialogue visit set) :=
  (SelectionSet.follows_foldFrom F h 0 visit).thenCall fun _ => rfl

theorem Selection.follows (s : Selection ν) (visit : Visit) : Follows F (s.fold F) visit (s.dialogue visit) := by
  induction s using Selection.induction generalizing visit with
  | field f ih =>
    have set := (SelectionSet.follows_of_forall F ih (visit.within .field)).inSelectionSet
    exact (set.thenCall f.copyWith_eq).map _
  | spread s => exact (follows_call s.copy_eq).map _
  | inlineFragment f ih =>
    have set := (SelectionSet.follows_of_forall F ih (visit.within .inlineFragment)).inSelectionSet
    exact (set.thenCall f.copyWith_eq).map _

theorem SelectionSet.follows (set : SelectionSet ν) (visit : Visit) :
    Follows F (SelectionSet.fold F set) visit (SelectionSet.dialogue visit set) :=
  SelectionSet.follows_of_forall F (fun s _ => s.follows F) visit

theorem Field.follows (f : Field ν (Selection ν)) (visit : Visit) : Follows F (f.fold F) visit (f.dialogue visit) :=
  (SelectionSet.follows F f.selectionSet (visit.within .field)).inSelectionSet.thenCall f.copyWith_eq

theorem InlineFragment.follows (f : InlineFragment ν (Selection ν)) (visit : Visit) :
    Follows F (f.fold F) visit (f.dialogue visit) :=
  (SelectionSet.follows F f.selectionSet (visit.within .inlineFragment)).inSelectionSet.thenCall f.copyWith_eq

theorem Operation.follows (o : Operation ν) (visit : Visit) : Follows F (o.fold F) visit (o.dialogue visit) :=
  (SelectionSet.follows F o.selectionSet (visit.within .operation)).inSelectionSet.thenCall o.copyWith_eq

theorem Fragment.follows (f : Fragment ν) (visit : Visit) : Follows F (f.fold F) visit (f.dialogue visit) :=
  (SelectionSet.follows F f.selectionSet (visit.within .fragment)).inSelectionSet.thenCall f.copyWith_eq

theorem Definition.follows (d : Definition ν) (visit : Visit) : Follows F (d.fold F) visit (d.dialogue visit) := by
  cases d with
  | operation o => exact (o.follows F visit).map _
  | fragment f => exact (f.follows F visit).map _

private theorem Definition.follows_foldFrom (ds : List (Definition ν)) (i : Nat) (visit : Visit) :
    Follows F (Definition.foldFrom F i ds) visit (Definition.dialogueFrom visit i ds) := by
  induction ds generalizing i with
  | nil => exact follows_pure []
  | cons d ds ih =>
    exact (d.follows F (visit.child i)).atIndex.bind fun new => (ih (i + 1)).bind fun rest => follows_pure (new :: rest)

/-- From any place a fold follows the dialogue of its node with any folder. -/
theorem Node.follows (node : Node ν) (visit : Visit) : Follows F (node.foldM F) visit (node.dialogue visit) := by
  cases node with
  | document d =>
    exact ((Definition.follows_foldFrom F d.definitions 0 visit).bind fun new => follows_pure (Document.mk new)).map _
  | operation o => exact (o.follows F visit).map _
  | fragment f => exact (f.follows F visit).map _
  | selectionSet set => exact (SelectionSet.follows F set visit).map _
  | selection s => exact (s.follows F visit).map _
  | field f => exact (f.follows F visit).map _
  | spread s => exact (follows_call s.copy_eq).map _
  | inlineFragment f => exact (f.follows F visit).map _

/-- A fold from the top is a run of the dialogue of its node. -/
theorem Node.fold_eq_run (node : Node ν) (s : σ) : node.fold F s = (node.dialogue {}).run F s :=
  (node.follows F {}).start s

variable {F}

/-- A fold gives what its dialogue ends with. -/
theorem Node.fold_of_reaches {node result : Node ν} {exchanges : List (Exchange ν)} {s t : σ}
    (reaches : (node.dialogue {}).Reaches exchanges (.done result)) (answers : F.Answers s exchanges t) :
    node.fold F s = (.ok result, t) := by
  rw [node.fold_eq_run, Dialogue.run_of_reaches reaches answers]
  rfl

end PersistedQuery
