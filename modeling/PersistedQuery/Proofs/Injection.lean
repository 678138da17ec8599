import PersistedQuery.Proofs.Runs
import PersistedQuery.Proofs.Tree
import PersistedQuery.Typename

/-!
# The sets that gain `__typename`

`Document.inject` says by plain recursion which selection sets of a document gain the field, and `Document.injections`
at which places.  Adding `__typename` by a fold always succeeds, gives that document and logs these places
(`Document.yields_addTypename`): the fold decides on sets whose selections it has already changed, but such a change
neither adds nor renames a selection of the set (`TypenamePolicy.gains_injectEach`).
-/

namespace PersistedQuery

variable {ν : Type}

/-! ### Which sets gain the field -/

/-- A set gains the field if it selects something, but no field with that name, unless it is the set of an operation and
the policy leaves those out. -/
def TypenamePolicy.Gains (policy : TypenamePolicy) (owner : Owner) (set : SelectionSet ν) : Prop :=
  set ≠ [] ∧ (∀ f, .field f ∈ set → f.name ≠ typenameField) ∧ ¬ (policy = .exceptRoot ∧ owner = .operation)

private theorem SelectionSet.hasTypename_eq_false_iff (set : SelectionSet ν) :
    SelectionSet.hasTypename set = false ↔ ∀ f, .field f ∈ set → f.name ≠ typenameField := by
  unfold SelectionSet.hasTypename
  rw [List.any_eq_false]
  constructor
  · intro h f mem name
    exact h (.field f) mem (by simp [Selection.field?, name])
  · intro h s mem
    cases s with
    | field f => simpa [Selection.field?] using h f mem
    | spread s => simp [Selection.field?]
    | inlineFragment f => simp [Selection.field?]

private theorem TypenamePolicy.admits_iff (policy : TypenamePolicy) (visit : Visit) :
    policy.admits visit = true ↔ ¬ (policy = .exceptRoot ∧ visit.parent = .operation) := by
  cases policy <;> simp [TypenamePolicy.admits, Visit.isOperationRoot]

theorem TypenamePolicy.needs_iff (policy : TypenamePolicy) (set : SelectionSet ν) (visit : Visit) :
    policy.needs set visit = true ↔ policy.Gains visit.parent set := by
  unfold TypenamePolicy.needs TypenamePolicy.Gains
  rw [Bool.and_eq_true, Bool.and_eq_true, Bool.not_eq_true', Bool.not_eq_true', List.isEmpty_eq_false_iff,
    SelectionSet.hasTypename_eq_false_iff, TypenamePolicy.admits_iff, and_assoc]

instance (policy : TypenamePolicy) (owner : Owner) (set : SelectionSet ν) : Decidable (policy.Gains owner set) :=
  decidable_of_iff _ (policy.needs_iff set ⟨{}, owner⟩)

/-! ### The document afterwards -/

section

variable (policy : TypenamePolicy)

/-- What the set of an owner gains. -/
def TypenamePolicy.gained (owner : Owner) (set : SelectionSet ν) : SelectionSet ν :=
  if policy.Gains owner set then [.field (.leaf typenameField)] else []

mutual

def Selection.inject : Selection ν → Selection ν
  | .field f =>
    .field { f with selectionSet := SelectionSet.injectEach f.selectionSet ++ policy.gained .field f.selectionSet }
  | .spread s => .spread s
  | .inlineFragment f =>
    .inlineFragment
      { f with selectionSet := SelectionSet.injectEach f.selectionSet ++ policy.gained .inlineFragment f.selectionSet }

/-- Each selection of a set with `__typename` in the sets below it, but nothing added to the set itself. -/
def SelectionSet.injectEach : SelectionSet ν → SelectionSet ν
  | [] => []
  | s :: set => s.inject :: SelectionSet.injectEach set

end

/-- The set of an owner with `__typename` in it and in the sets below it, where they gain it. -/
def SelectionSet.inject (owner : Owner) (set : SelectionSet ν) : SelectionSet ν :=
  SelectionSet.injectEach policy set ++ policy.gained owner set

def Definition.inject : Definition ν → Definition ν
  | .operation o => .operation { o with selectionSet := SelectionSet.inject policy .operation o.selectionSet }
  | .fragment f => .fragment { f with selectionSet := SelectionSet.inject policy .fragment f.selectionSet }

/-- The document with `__typename` in all the sets that gain it. -/
def Document.inject (d : Document ν) : Document ν := ⟨d.definitions.map (Definition.inject policy)⟩

theorem SelectionSet.injectEach_eq_map (set : SelectionSet ν) :
    SelectionSet.injectEach policy set = set.map (Selection.inject policy) := by
  induction set with
  | nil => rfl
  | cons s set ih => simp [SelectionSet.injectEach, ih]

theorem Selection.inject_field (f : Field ν (Selection ν)) :
    (Selection.field f).inject policy =
      .field { f with selectionSet := SelectionSet.inject policy .field f.selectionSet } := by
  rw [Selection.inject, SelectionSet.inject]

theorem Selection.inject_inlineFragment (f : InlineFragment ν (Selection ν)) :
    (Selection.inlineFragment f).inject policy =
      .inlineFragment { f with selectionSet := SelectionSet.inject policy .inlineFragment f.selectionSet } := by
  rw [Selection.inject, SelectionSet.inject]

/-! ### The places of the sets that gain the field -/

def TypenamePolicy.gainEvents (path : Path) (owner : Owner) (set : SelectionSet ν) : List Event :=
  if policy.Gains owner set then [.addingTypename path owner] else []

mutual

/-- The events of the sets below a selection. -/
def Selection.injections (path : Path) : Selection ν → List Event
  | .field f =>
    SelectionSet.injectionsFrom (path.push .selectionSet) 0 f.selectionSet ++
      policy.gainEvents (path.push .selectionSet) .field f.selectionSet
  | .spread _ => []
  | .inlineFragment f =>
    SelectionSet.injectionsFrom (path.push .selectionSet) 0 f.selectionSet ++
      policy.gainEvents (path.push .selectionSet) .inlineFragment f.selectionSet

/-- The events of the sets below the selections of a set from position `i` on. -/
def SelectionSet.injectionsFrom (path : Path) (i : Nat) : SelectionSet ν → List Event
  | [] => []
  | s :: set => s.injections (path.push (.index i)) ++ SelectionSet.injectionsFrom path (i + 1) set

end

def SelectionSet.injections (path : Path) (owner : Owner) (set : SelectionSet ν) : List Event :=
  SelectionSet.injectionsFrom policy path 0 set ++ policy.gainEvents path owner set

def Definition.injections (path : Path) : Definition ν → List Event
  | .operation o => SelectionSet.injections policy (path.push .selectionSet) .operation o.selectionSet
  | .fragment f => SelectionSet.injections policy (path.push .selectionSet) .fragment f.selectionSet

def Definition.injectionsFrom (path : Path) (i : Nat) : List (Definition ν) → List Event
  | [] => []
  | d :: ds => d.injections policy (path.push (.index i)) ++ Definition.injectionsFrom path (i + 1) ds

/-- The events of all the sets of a document that gain the field. -/
def Document.injections (d : Document ν) : List Event := Definition.injectionsFrom policy {} 0 d.definitions

end

/-! ### Sets that stay empty -/

@[simp]
theorem SelectionSet.inject_eq_nil_iff (policy : TypenamePolicy) (owner : Owner) (set : SelectionSet ν) :
    SelectionSet.inject policy owner set = [] ↔ set = [] := by
  unfold SelectionSet.inject TypenamePolicy.gained
  rw [SelectionSet.injectEach_eq_map]
  constructor
  · intro h
    simpa using (List.append_eq_nil_iff.1 h).1
  · rintro rfl
    simp [TypenamePolicy.Gains]

theorem Definition.inject_selectionSet_eq_nil_iff (policy : TypenamePolicy) (x : Definition ν) :
    (x.inject policy).selectionSet = [] ↔ x.selectionSet = [] := by
  cases x with
  | operation o => exact SelectionSet.inject_eq_nil_iff policy .operation o.selectionSet
  | fragment f => exact SelectionSet.inject_eq_nil_iff policy .fragment f.selectionSet

/-! ### One step of the fold -/

section

variable (policy : TypenamePolicy)

/-- Whether a set gains the field depends on its policy, its owner and the names of its fields alone. -/
theorem TypenamePolicy.gains_map {change : Selection ν → Selection ν}
    (h : ∀ s, (change s).field?.map (·.name) = s.field?.map (·.name)) (q : TypenamePolicy) (owner : Owner)
    (set : SelectionSet ν) : q.Gains owner (set.map change) ↔ q.Gains owner set := by
  have named (set : SelectionSet ν) : (∀ f, .field f ∈ set → f.name ≠ typenameField) ↔
      ∀ s ∈ set, s.field?.map (·.name) ≠ some typenameField := by
    constructor
    · intro names s mem
      cases s with
      | field f => simpa [Selection.field?] using names f mem
      | spread s => simp [Selection.field?]
      | inlineFragment f => simp [Selection.field?]
    · intro names f mem
      simpa [Selection.field?] using names (.field f) mem
  unfold TypenamePolicy.Gains
  rw [named, named]
  simp only [List.forall_mem_map, h, ne_eq, List.map_eq_nil_iff]

theorem Selection.field?_inject (s : Selection ν) :
    (s.inject policy).field?.map (·.name) = s.field?.map (·.name) := by
  cases s with
  | field f => rw [Selection.inject_field]; rfl
  | spread s => rfl
  | inlineFragment f => rw [Selection.inject_inlineFragment]; rfl

/-- Changes below the selections of a set do not change whether the set gains the field. -/
theorem TypenamePolicy.gains_injectEach (q : TypenamePolicy) (owner : Owner) (set : SelectionSet ν) :
    q.Gains owner (SelectionSet.injectEach policy set) ↔ q.Gains owner set := by
  rw [SelectionSet.injectEach_eq_map]
  exact TypenamePolicy.gains_map (Selection.field?_inject policy) q owner set

private theorem TypenamePolicy.folder_selectionSet (set : SelectionSet ν) (visit : Visit) (before : List Event) :
    policy.folder .selectionSet set visit before =
      (.ok (set ++ policy.gained visit.parent set), before ++ policy.gainEvents visit.path visit.parent set) := by
  unfold TypenamePolicy.folder TypenamePolicy.gained TypenamePolicy.gainEvents
  by_cases h : policy.Gains visit.parent set
  · rw [if_pos h, if_pos h]
    simp only [(policy.needs_iff set visit).2 h, if_true]
    rfl
  · rw [if_neg h, if_neg h, List.append_nil, List.append_nil]
    simp only [mt (policy.needs_iff set visit).1 h]
    rfl

/-! ### The whole fold -/

/-- Folding the selection gives what the recursion gives, and logs its events. -/
private def Selection.Injects (s : Selection ν) : Prop :=
  ∀ visit before, (s.fold policy.folder).Gives visit before (s.inject policy) (before ++ s.injections policy visit.path)

private theorem SelectionSet.gives_foldFrom {set : SelectionSet ν} (h : ∀ s ∈ set, s.Injects policy) (i : Nat)
    (visit : Visit) (before : List Event) :
    (SelectionSet.foldFrom policy.folder i set).Gives visit before (SelectionSet.injectEach policy set)
      (before ++ SelectionSet.injectionsFrom policy visit.path i set) := by
  induction set generalizing i before with
  | nil =>
    rw [SelectionSet.injectionsFrom, List.append_nil]
    exact FoldM.gives_pure [] visit before
  | cons s set ih =>
    rw [List.forall_mem_cons] at h
    rw [SelectionSet.injectionsFrom, ← List.append_assoc]
    have head := (h.1 ⟨visit.path.push (.index i), visit.parent⟩ before).atIndex
    have tail := ih h.2 (i + 1) (before ++ s.injections policy (visit.path.push (.index i)))
    exact head.bind (tail.bind (FoldM.gives_pure _ visit _))

private theorem SelectionSet.gives_fold {set : SelectionSet ν} (h : ∀ s ∈ set, s.Injects policy) (visit : Visit)
    (before : List Event) :
    (SelectionSet.fold policy.folder set).Gives visit before (SelectionSet.inject policy visit.parent set)
      (before ++ SelectionSet.injections policy visit.path visit.parent set) := by
  rw [SelectionSet.inject, SelectionSet.injections, ← List.append_assoc]
  refine (SelectionSet.gives_foldFrom policy h 0 visit before).bind (FoldM.gives_call rfl ?_)
  -- the step sees the changed selections, but decides as for the original ones
  rw [policy.folder_selectionSet]
  simp only [TypenamePolicy.gained, TypenamePolicy.gainEvents, policy.gains_injectEach]

private theorem SelectionSet.gives_inSelectionSet {set : SelectionSet ν} (h : ∀ s ∈ set, s.Injects policy)
    (owner : Owner) (visit : Visit) (before : List Event) :
    (FoldM.inSelectionSet owner (SelectionSet.fold policy.folder set)).Gives visit before
      (SelectionSet.inject policy owner set)
      (before ++ SelectionSet.injections policy (visit.path.push .selectionSet) owner set) :=
  (SelectionSet.gives_fold policy h ⟨visit.path.push .selectionSet, owner⟩ before).inSelectionSet

private theorem Selection.injects (s : Selection ν) : s.Injects policy := by
  induction s using Selection.induction with
  | field f ih =>
    intro visit before
    have set := SelectionSet.gives_inSelectionSet policy ih .field visit before
    rw [Selection.inject_field]
    exact (set.bind (FoldM.gives_call (f.copyWith_eq _) rfl)).map _
  | spread s =>
    intro visit before
    rw [Selection.injections, List.append_nil]
    exact (FoldM.gives_call s.copy_eq rfl).map _
  | inlineFragment f ih =>
    intro visit before
    have set := SelectionSet.gives_inSelectionSet policy ih .inlineFragment visit before
    rw [Selection.inject_inlineFragment]
    exact (set.bind (FoldM.gives_call (f.copyWith_eq _) rfl)).map _

private theorem Definition.gives_fold (d : Definition ν) (visit : Visit) (before : List Event) :
    (d.fold policy.folder).Gives visit before (d.inject policy) (before ++ d.injections policy visit.path) := by
  have injects (set : SelectionSet ν) : ∀ s ∈ set, s.Injects policy := fun s _ => s.injects policy
  cases d with
  | operation o =>
    have set := SelectionSet.gives_inSelectionSet policy (injects o.selectionSet) .operation visit before
    exact (set.bind (FoldM.gives_call (o.copyWith_eq _) rfl)).map _
  | fragment f =>
    have set := SelectionSet.gives_inSelectionSet policy (injects f.selectionSet) .fragment visit before
    exact (set.bind (FoldM.gives_call (f.copyWith_eq _) rfl)).map _

private theorem Definition.gives_foldFrom (ds : List (Definition ν)) (i : Nat) (visit : Visit) (before : List Event) :
    (Definition.foldFrom policy.folder i ds).Gives visit before (ds.map (Definition.inject policy))
      (before ++ Definition.injectionsFrom policy visit.path i ds) := by
  induction ds generalizing i before with
  | nil =>
    rw [Definition.injectionsFrom, List.append_nil]
    exact FoldM.gives_pure [] visit before
  | cons d ds ih =>
    rw [Definition.injectionsFrom, ← List.append_assoc]
    have head := (d.gives_fold policy ⟨visit.path.push (.index i), visit.parent⟩ before).atIndex
    have tail := ih (i + 1) (before ++ d.injections policy (visit.path.push (.index i)))
    exact head.bind (tail.bind (FoldM.gives_pure _ visit _))

/-- Adding `__typename` succeeds, gives the document of the recursion and logs the sets that gain the field. -/
theorem Document.yields_addTypename (d : Document ν) :
    (d.addTypename policy).Yields (d.inject policy) (d.injections policy) := by
  intro before
  have definitions := Definition.gives_foldFrom policy d.definitions 0 {} before
  have whole : (d.fold policy.folder).Gives {} before (d.inject policy) (before ++ d.injections policy) :=
    definitions.bind (FoldM.gives_pure _ _ _)
  exact whole.start

end

/-- Adding `__typename` succeeds under either policy, whatever has been logged before.  Its result is the document in
which exactly the sets that select something and no field of that name, and that the policy does not leave out as the
sets of operations, have the bare field at their end. -/
theorem Document.addTypename_eq_inject (policy : TypenamePolicy) (d : Document ν) (before : List Event) :
    ∃ events, d.addTypename policy before = (.ok (d.inject policy), before ++ events) :=
  ⟨d.injections policy, d.yields_addTypename policy before⟩

end PersistedQuery
