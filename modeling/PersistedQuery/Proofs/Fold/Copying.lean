import PersistedQuery.Proofs.Fold.PostOrder

/-!
# Folds that copy

A fold builds its node anew, with copies of what it does not go into.  With a folder that gives each node back, nothing
of the node is lost or changed on the way, whatever the folder does with its state.

* `Node.fold_copies`: such a fold ends and gives a node that is equal to the one that it started at and has the same
  text; each copy is equal to its original.
-/

namespace PersistedQuery

variable {ν σ : Type}

/-! ### Folders that give each node back -/

/-- Each step gives the node that it receives.  It may change the state of the folder. -/
def Folder.KeepsNodes (F : Folder ν σ) : Prop := ∀ callback node visit s, ∃ t, F callback node visit s = (.ok node, t)

/-- The folder gave the node that it received. -/
def Exchange.Kept (x : Exchange ν) : Prop := x.result = x.node

namespace Folder

theorem keepsNodes_keep : (keep : Folder ν σ).KeepsNodes := fun _ _ _ s => ⟨s, rfl⟩

variable {F : Folder ν σ} {s t : σ} {xs : List (Exchange ν)}

theorem KeepsNodes.recording (h : F.KeepsNodes) : F.recording.KeepsNodes := by
  rintro callback node visit ⟨calls, s⟩
  obtain ⟨t, step⟩ := h callback node visit s
  refine ⟨(calls ++ [⟨callback, node, visit⟩], t), ?_⟩
  simp [Folder.recording, step]

theorem KeepsNodes.succeeds (h : F.KeepsNodes) : F.Succeeds := by
  intro callback node visit s
  obtain ⟨t, step⟩ := h callback node visit s
  exact ⟨node, t, step⟩

theorem KeepsNodes.kept (h : F.KeepsNodes) (answers : F.Answers s xs t) : ∀ x ∈ xs, x.Kept := by
  induction xs generalizing s with
  | nil => simp
  | cons x xs ih =>
    obtain ⟨u, step, rest⟩ := answers
    obtain ⟨v, kept⟩ := h x.callback x.node x.visit s
    obtain ⟨own, -⟩ := Prod.mk.inj (kept.symm.trans step)
    exact List.forall_mem_cons.2 ⟨(Except.ok.inj own).symm, ih rest⟩

/-- The folder that changes nothing leaves its state alone as well. -/
theorem eq_of_answers_keep (h : keep.Answers s xs t) : s = t := by
  induction xs generalizing s with
  | nil => exact h
  | cons x xs ih =>
    obtain ⟨u, step, rest⟩ := h
    obtain ⟨-, same⟩ := Prod.mk.inj step
    exact Eq.trans same (ih rest)

end Folder

/-! ### Nodes rebuilt from exchanges that keep them -/

/-- The last exchange gives the node for which it was made back. -/
theorem Callback.kept_of_append {callback : Callback} {visit : Visit} {node new : callback.Node ν}
    {xs : List (Exchange ν)} (kept : ∀ x ∈ xs ++ [callback.exchange visit node new], x.Kept) :
    (∀ x ∈ xs, x.Kept) ∧ new = node := by
  rw [List.forall_mem_append, List.forall_mem_singleton] at kept
  exact kept

-- by recursion on the derivations: what is below a node comes back as it was, so its step receives, and keeps, the node
mutual

theorem Selection.Rebuilt.eq_of_kept : ∀ {visit : Visit} {s new : Selection ν} {xs : List (Exchange ν)},
    s.Rebuilt visit xs new → (∀ x ∈ xs, x.Kept) → new = s
  | _, _, _, _, .field set, kept => by
    obtain ⟨below, own⟩ := Callback.kept_of_append kept
    rw [own, SelectionSet.Rebuilt.eq_of_kept set below]
  | _, _, _, _, .spread, kept => by
    have own := List.forall_mem_singleton.1 kept
    exact congrArg Selection.spread own
  | _, _, _, _, .inlineFragment set, kept => by
    obtain ⟨below, own⟩ := Callback.kept_of_append kept
    rw [own, SelectionSet.Rebuilt.eq_of_kept set below]

theorem SelectionSet.Rebuilt.eq_of_kept : ∀ {visit : Visit} {set new : SelectionSet ν} {xs : List (Exchange ν)},
    SelectionSet.Rebuilt visit set xs new → (∀ x ∈ xs, x.Kept) → new = set
  | _, _, _, _, .selections selections, kept => by
    obtain ⟨below, own⟩ := Callback.kept_of_append kept
    rw [own, SelectionSet.RebuiltFrom.eq_of_kept selections below]

theorem SelectionSet.RebuiltFrom.eq_of_kept :
    ∀ {visit : Visit} {i : Nat} {set new : SelectionSet ν} {xs : List (Exchange ν)},
      SelectionSet.RebuiltFrom visit i set xs new → (∀ x ∈ xs, x.Kept) → new = set
  | _, _, _, _, _, .nil, _ => rfl
  | _, _, _, _, _, .cons first rest, kept => by
    obtain ⟨head, tail⟩ := List.forall_mem_append.1 kept
    rw [Selection.Rebuilt.eq_of_kept first head, SelectionSet.RebuiltFrom.eq_of_kept rest tail]

end

section

variable {visit : Visit} {xs : List (Exchange ν)}

theorem Definition.Rebuilt.eq_of_kept {d new : Definition ν} (h : d.Rebuilt visit xs new) (kept : ∀ x ∈ xs, x.Kept) :
    new = d := by
  cases h with
  | operation set | fragment set =>
    obtain ⟨below, own⟩ := Callback.kept_of_append kept
    rw [own, set.eq_of_kept below]

theorem Definition.RebuiltFrom.eq_of_kept {i : Nat} {ds new : List (Definition ν)}
    (h : Definition.RebuiltFrom visit i ds xs new) (kept : ∀ x ∈ xs, x.Kept) : new = ds := by
  induction h with
  | nil => rfl
  | cons first _ ih =>
    obtain ⟨head, tail⟩ := List.forall_mem_append.1 kept
    rw [first.eq_of_kept head, ih tail]

/-- A node comes back as it was if each step on the way gives its node back. -/
theorem Node.Rebuilt.eq_of_kept {node new : Node ν} (h : node.Rebuilt visit xs new) (kept : ∀ x ∈ xs, x.Kept) :
    new = node := by
  unfold Node.Rebuilt at h
  split at h
  · exact congrArg (fun ds => Node.document ⟨ds⟩) (Definition.RebuiltFrom.eq_of_kept h kept)
  · rw [Definition.operation.inj (Definition.Rebuilt.eq_of_kept h kept)]
  · rw [Definition.fragment.inj (Definition.Rebuilt.eq_of_kept h kept)]
  · rw [SelectionSet.Rebuilt.eq_of_kept h kept]
  · rw [Selection.Rebuilt.eq_of_kept h kept]
  · rw [Selection.field.inj (Selection.Rebuilt.eq_of_kept h kept)]
  · rw [Selection.spread.inj (Selection.Rebuilt.eq_of_kept h kept)]
  · rw [Selection.inlineFragment.inj (Selection.Rebuilt.eq_of_kept h kept)]
  · exact h.elim

end

/-! ### Folds -/

section

variable {F : Folder ν σ}

/-- A fold with a folder that gives each node back comes to its end, and all of its exchanges keep their nodes. -/
theorem Folder.KeepsNodes.reaches (keeps : F.KeepsNodes) (node : Node ν) (s : σ) :
    ∃ exchanges t, (node.dialogue {}).Reaches exchanges (.done node) ∧ F.Answers s exchanges t := by
  obtain ⟨exchanges, result, t, reaches, answers⟩ :=
    Dialogue.exists_reaches_done keeps.succeeds (node.dialogue {}) s
  have same : result = node := (Node.rebuilt_of_reaches reaches).eq_of_kept (keeps.kept answers)
  rw [same] at reaches
  exact ⟨exchanges, t, reaches, answers⟩

theorem Node.fold_of_keepsNodes (keeps : F.KeepsNodes) (node : Node ν) (s : σ) :
    ∃ t, node.fold F s = (.ok node, t) := by
  obtain ⟨exchanges, t, reaches, answers⟩ := keeps.reaches node s
  exact ⟨t, Node.fold_of_reaches reaches answers⟩

theorem Node.fold_keep (node : Node ν) (s : σ) : node.fold Folder.keep s = (.ok node, s) := by
  obtain ⟨exchanges, t, reaches, answers⟩ := Folder.keepsNodes_keep.reaches node s
  cases Folder.eq_of_answers_keep answers
  exact Node.fold_of_reaches reaches answers

end

/-- The fold that changes nothing gives back the node that it started at, and a copy of what a fold does not go into, or
of a list of it, is equal to the original.  A folder that gives each node back, whatever it does with its state, leaves
the node and its text as they were. -/
theorem Node.fold_copies :
    (∀ (node : Node ν) (s : σ), node.fold Folder.keep s = (.ok node, s)) ∧
    ((∀ v : Value ν, v.copy = v) ∧ (∀ b : Binding (Value ν), b.copy = b) ∧ (∀ d : Directive ν, d.copy = d) ∧
      ∀ v : VariableDefinition ν, v.copy = v) ∧
    ((∀ vs : List (Value ν), vs.map Value.copy = vs) ∧ (∀ bs : List (Binding (Value ν)), bs.map Binding.copy = bs) ∧
      (∀ ds : List (Directive ν), ds.map Directive.copy = ds) ∧
        ∀ vs : List (VariableDefinition ν), vs.map VariableDefinition.copy = vs) ∧
    (∀ F : Folder ν σ, F.KeepsNodes → ∀ (node : Node ν) (s : σ), ∃ t, node.fold F s = (.ok node, t)) ∧
    ∀ F : Folder Numeral σ, F.KeepsNodes → ∀ (node : Node Numeral) (s : σ),
      (node.fold F s).1.map Node.text = .ok node.text := by
  refine ⟨Node.fold_keep, by simp, by simp, fun F => Node.fold_of_keepsNodes, ?_⟩
  intro F keeps node s
  obtain ⟨t, fold⟩ := Node.fold_of_keepsNodes keeps node s
  rw [fold]
  rfl

/-- A query with a default of `null` and a directive for its variable, and with an object in a list. -/
def Node.annotated : Node Numeral :=
  .operation ⟨.query, some "Q", [⟨"v", .nonNull (.named "I"), some .null, [⟨"d", []⟩]⟩], [],
    [.field ⟨some "x", "f", [⟨"o", .list [.object [⟨"k", .variable "v"⟩, ⟨"k", .number (.int "1")⟩]]⟩], [⟨"e", []⟩],
      [.spread ⟨"F", []⟩]⟩]⟩

/-- The folder that notes its calls gives the query back. -/
theorem Node.fold_copies_annotated :
    (Folder.recording (Folder.keep (ν := Numeral) (σ := Unit))).KeepsNodes ∧
      (Node.annotated.fold Folder.keep.recording ([], ())).1.map Node.text =
        .ok "query Q($v: I! = null @d) \x7b x: f(o: [\x7bk: $v k: 1\x7d]) @e \x7b ...F \x7d \x7d".toList := by
  obtain ⟨-, -, -, -, printed⟩ := Node.fold_copies (ν := Numeral) (σ := List (Call Numeral) × Unit)
  have keeps : (Folder.recording (Folder.keep (ν := Numeral) (σ := Unit))).KeepsNodes :=
    Folder.keepsNodes_keep.recording
  refine ⟨keeps, ?_⟩
  rw [printed _ keeps]
  exact congrArg Except.ok (by decide)

end PersistedQuery
