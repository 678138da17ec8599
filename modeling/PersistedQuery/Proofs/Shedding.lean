import PersistedQuery.Proofs.Sets
import PersistedQuery.Proofs.Stripping

/-!
# Fields added and taken out at given paths

`Document.addWhere` adds a bare `__typename` to the sets at any given paths, and `Document.shedAt?` takes the last
selection out of the set at a path, if it is that field.

* `Document.shedAt?_addWhere`: taking the field out at one of the paths leaves what is added at the others.
* `Document.foldlM_shedAt?_addWhere`: so taking it out at all the paths, one after the other, gives the document back.
-/

namespace PersistedQuery

variable {ν : Type}

/-! ### Owners with another set -/

def Selection.withSet (set : SelectionSet ν) : Selection ν → Selection ν
  | .field f => .field { f with selectionSet := set }
  | .spread s => .spread s
  | .inlineFragment f => .inlineFragment { f with selectionSet := set }

def Definition.withSet (set : SelectionSet ν) : Definition ν → Definition ν
  | .operation o => .operation { o with selectionSet := set }
  | .fragment f => .fragment { f with selectionSet := set }

@[simp]
theorem Selection.withSet_withSet (s : Selection ν) (a b : SelectionSet ν) :
    (s.withSet a).withSet b = s.withSet b := by
  cases s <;> rfl

@[simp]
theorem Selection.owned?_withSet {s : Selection ν} {owner : Owner} {set : SelectionSet ν}
    (h : s.owned? = some (owner, set)) (new : SelectionSet ν) : (s.withSet new).owned? = some (owner, new) := by
  cases s with
  | spread s => cases h
  | field f | inlineFragment f =>
    cases h
    rfl

theorem Selection.withSet_of_owned {s : Selection ν} {owner : Owner} {set : SelectionSet ν}
    (h : s.owned? = some (owner, set)) : s.withSet set = s := by
  cases s with
  | spread s => cases h
  | field f | inlineFragment f =>
    cases h
    rfl

@[simp]
theorem Definition.withSet_withSet (x : Definition ν) (a b : SelectionSet ν) :
    (x.withSet a).withSet b = x.withSet b := by
  cases x <;> rfl

@[simp]
theorem Definition.owner_withSet (x : Definition ν) (set : SelectionSet ν) : (x.withSet set).owner = x.owner := by
  cases x <;> rfl

@[simp]
theorem Definition.selectionSet_withSet (x : Definition ν) (set : SelectionSet ν) :
    (x.withSet set).selectionSet = set := by
  cases x <;> rfl

@[simp]
theorem Definition.withSet_selectionSet (x : Definition ν) : x.withSet x.selectionSet = x := by
  cases x <;> rfl

/-! ### Adding the field at given paths -/

/-- What is added to a set. -/
def SelectionSet.added (adds : Bool) : SelectionSet ν := if adds then [.field (.leaf typenameField)] else []

mutual

/-- The selection with a bare `__typename` at the end of the sets below it at the given paths. -/
def Selection.addWhere (adds : List Segment → Bool) : Selection ν → Selection ν
  | .field f =>
    .field { f with
      selectionSet := SelectionSet.addBelow (fun path => adds (.selectionSet :: path)) 0 f.selectionSet ++
        SelectionSet.added (adds [.selectionSet]) }
  | .spread s => .spread s
  | .inlineFragment f =>
    .inlineFragment { f with
      selectionSet := SelectionSet.addBelow (fun path => adds (.selectionSet :: path)) 0 f.selectionSet ++
        SelectionSet.added (adds [.selectionSet]) }

/-- The selections of a set from position `i` on, with the field in the sets below them. -/
def SelectionSet.addBelow (adds : List Segment → Bool) (i : Nat) : SelectionSet ν → SelectionSet ν
  | [] => []
  | s :: set => s.addWhere (fun path => adds (.index i :: path)) :: SelectionSet.addBelow adds (i + 1) set

end

/-- The set with the field at its end, if the empty path is given, and in the sets below it. -/
def SelectionSet.addWhere (adds : List Segment → Bool) (set : SelectionSet ν) : SelectionSet ν :=
  SelectionSet.addBelow adds 0 set ++ SelectionSet.added (adds [])

/-- The document with a bare `__typename` at the end of the sets at the given paths. -/
def Document.addWhere (adds : List Segment → Bool) (d : Document ν) : Document ν where
  definitions := d.definitions.mapIdx fun i x =>
    x.withSet (SelectionSet.addWhere (fun path => adds (.index i :: .selectionSet :: path)) x.selectionSet)

section

variable (adds : List Segment → Bool)

theorem Selection.addWhere_of_owned {s : Selection ν} {owner : Owner} {set : SelectionSet ν}
    (h : s.owned? = some (owner, set)) :
    s.addWhere adds = s.withSet (SelectionSet.addWhere (fun path => adds (.selectionSet :: path)) set) := by
  cases s with
  | spread s => cases h
  | field f | inlineFragment f =>
    cases h
    rfl

theorem Selection.addWhere_of_not_owned {s : Selection ν} (h : s.owned? = none) : s.addWhere adds = s := by
  cases s with
  | spread s => rfl
  | field f | inlineFragment f => cases h

theorem SelectionSet.addWhere_eq (set : SelectionSet ν) :
    SelectionSet.addWhere adds set =
      set.mapIdx (fun i s => s.addWhere fun path => adds (.index i :: path)) ++ SelectionSet.added (adds []) := by
  have below (i : Nat) : SelectionSet.addBelow adds i set =
      set.mapIdx fun j s => s.addWhere fun path => adds (.index (i + j) :: path) := by
    induction set generalizing i with
    | nil => rfl
    | cons s set ih => simp [SelectionSet.addBelow, ih, List.mapIdx_cons, Nat.add_assoc, Nat.add_comm 1]
  rw [SelectionSet.addWhere, below 0]
  simp

/-- Where nothing is given, nothing is added. -/
theorem SelectionSet.addWhere_none (set : SelectionSet ν) : SelectionSet.addWhere (fun _ => false) set = set := by
  induction set using SelectionSet.induction with
  | h set ih =>
    have each : ∀ s ∈ set, s.addWhere (fun _ => false) = s := by
      intro s mem
      cases owned : s.owned? with
      | none => exact Selection.addWhere_of_not_owned _ owned
      | some below => rw [Selection.addWhere_of_owned _ owned, ih s mem _ _ owned, Selection.withSet_of_owned owned]
    have same : set.mapIdx (fun _ s => s.addWhere fun _ => false) = set :=
      List.mapIdx_eq_iff.2 fun i => by
        cases at_i : set[i]? with
        | none => rfl
        | some s => rw [Option.map_some, each s (List.mem_of_getElem? at_i)]
    rw [SelectionSet.addWhere_eq, same]
    exact List.append_nil set

theorem Document.addWhere_none (d : Document ν) : d.addWhere (fun _ => false) = d := by
  have same : d.definitions.mapIdx (fun _ x => x) = d.definitions := List.mapIdx_eq_iff.2 fun i => by
    rw [Option.map_id']
  simp only [Document.addWhere, SelectionSet.addWhere_none, Definition.withSet_selectionSet, same]

end

/-! ### Taking the field out at a path -/

/-- The set without the last selection of the set at the path, if there is one and that is the bare `__typename`. -/
def SelectionSet.shedAt? (set : SelectionSet ν) : List Segment → Option (SelectionSet ν)
  | [] => if set.getLast?.any (·.isBareTypename) then some set.dropLast else none
  | .index i :: .selectionSet :: path => do
    let s ← set[i]?
    let below ← s.owned?
    let shed ← SelectionSet.shedAt? below.2 path
    return set.set i (s.withSet shed)
  | _ => none

/-- The document without the last selection of the set at the path, if there is one and that is the bare
`__typename`. -/
def Document.shedAt? (d : Document ν) : List Segment → Option (Document ν)
  | .index i :: .selectionSet :: path => do
    let x ← d.definitions[i]?
    let shed ← SelectionSet.shedAt? x.selectionSet path
    return ⟨d.definitions.set i (x.withSet shed)⟩
  | _ => none

private theorem set_mapIdx_eq {α β : Type} {f g : Nat → α → β} {l : List α} {i : Nat} {a : α} (at_i : l[i]? = some a)
    (other : ∀ j b, j ≠ i → f j b = g j b) : (l.mapIdx f).set i (g i a) = l.mapIdx g := by
  have bound : i < l.length := (List.getElem?_eq_some_iff.1 at_i).1
  refine List.ext_getElem? fun j => ?_
  rw [List.getElem?_set, List.length_mapIdx, List.getElem?_mapIdx, List.getElem?_mapIdx]
  by_cases h : i = j
  · subst h
    rw [if_pos rfl, if_pos bound, at_i, Option.map_some]
  · rw [if_neg h]
    cases at_j : l[j]? with
    | none => rfl
    | some b => rw [Option.map_some, Option.map_some, other j b (Ne.symm h)]

/-- The paths but one. -/
def without (adds : List Segment → Bool) (path : List Segment) : List Segment → Bool := fun q => adds q && q ≠ path

private theorem without_below (adds : List Segment → Bool) (i : Nat) (rest : List Segment) :
    (fun p => without adds (.index i :: .selectionSet :: rest) (.index i :: .selectionSet :: p)) =
      without (fun p => adds (.index i :: .selectionSet :: p)) rest := by
  funext p
  simp [without]

private theorem without_beside (adds : List Segment → Bool) {i j : Nat} (h : j ≠ i) (rest : List Segment) :
    (fun p => without adds (.index i :: rest) (.index j :: p)) = fun p => adds (.index j :: p) := by
  funext p
  simp [without, h]

/-- Of the fields that are added below a set, that at one path is taken out, and the others stay. -/
theorem SelectionSet.shedAt?_addWhere (adds : List Segment → Bool) {owner : Owner} {set : SelectionSet ν}
    {path : List Segment} (found : (SelectionSet.at? owner set path).isSome = true) (given : adds path = true) :
    SelectionSet.shedAt? (SelectionSet.addWhere adds set) path =
      some (SelectionSet.addWhere (without adds path) set) := by
  -- by recursion on the path; what is added elsewhere does not move the selections that it leads through
  obtain ⟨target, h⟩ := Option.isSome_iff_exists.1 found
  obtain ⟨rfl, -⟩ | ⟨i, rest, s, below, rfl, at_i, owned, at_rest⟩ := SelectionSet.at?_cases h
  · -- the field that comes last in the set itself
    have bare : (Selection.field (.leaf typenameField) : Selection ν).isBareTypename = true :=
      (Selection.isBareTypename_iff _).2 rfl
    rw [SelectionSet.addWhere_eq, SelectionSet.addWhere_eq, given]
    simp [SelectionSet.shedAt?, SelectionSet.added, bare, without]
  · -- a field in a set below the selection at a position
    have bound : i < set.length := (List.getElem?_eq_some_iff.1 at_i).1
    have below_i := SelectionSet.shedAt?_addWhere (fun p => adds (.index i :: .selectionSet :: p))
      (Option.isSome_iff_exists.2 ⟨target, at_rest⟩) given
    have at_i' : (SelectionSet.addWhere adds set)[i]? = some (s.addWhere fun p => adds (.index i :: p)) := by
      rw [SelectionSet.addWhere_eq, List.getElem?_append_left (by simpa using bound), List.getElem?_mapIdx, at_i]
      rfl
    have owned' : (s.addWhere fun p => adds (.index i :: p)).owned? = some (below.1,
        SelectionSet.addWhere (fun p => adds (.index i :: .selectionSet :: p)) below.2) := by
      rw [Selection.addWhere_of_owned _ owned, Selection.owned?_withSet owned]
    have one : (s.addWhere fun p => adds (.index i :: p)).withSet
          (SelectionSet.addWhere (without (fun p => adds (.index i :: .selectionSet :: p)) rest) below.2) =
        s.addWhere fun p => without adds (.index i :: .selectionSet :: rest) (.index i :: p) := by
      rw [Selection.addWhere_of_owned _ owned, Selection.addWhere_of_owned _ owned, Selection.withSet_withSet,
        without_below]
    have others (j : Nat) (b : Selection ν) (h : j ≠ i) : (b.addWhere fun p => adds (.index j :: p)) =
        b.addWhere fun p => without adds (.index i :: .selectionSet :: rest) (.index j :: p) := by
      rw [without_beside adds h]
    rw [SelectionSet.shedAt?, at_i']
    simp only [Option.bind_eq_bind, Option.bind_some, owned', below_i, one]
    rw [SelectionSet.addWhere_eq, SelectionSet.addWhere_eq, List.set_append_left _ _ (by simpa using bound),
      set_mapIdx_eq at_i others]
    simp [without]

/-- Of the fields that are added, that at one path is taken out, and the others stay. -/
theorem Document.shedAt?_addWhere (adds : List Segment → Bool) {d : Document ν} {path : List Segment}
    (found : (d.setAt? path).isSome = true) (given : adds path = true) :
    (d.addWhere adds).shedAt? path = some (d.addWhere (without adds path)) := by
  obtain ⟨target, h⟩ := Option.isSome_iff_exists.1 found
  obtain ⟨i, rest, x, rfl, at_i, at_rest⟩ := Document.setAt?_cases h
  have below_i := SelectionSet.shedAt?_addWhere (fun p => adds (.index i :: .selectionSet :: p))
    (Option.isSome_iff_exists.2 ⟨target, at_rest⟩) given
  have others (j : Nat) (y : Definition ν) (h : j ≠ i) :
      y.withSet (SelectionSet.addWhere (fun p => adds (.index j :: .selectionSet :: p)) y.selectionSet) =
        y.withSet (SelectionSet.addWhere (fun p => without adds (.index i :: .selectionSet :: rest)
          (.index j :: .selectionSet :: p)) y.selectionSet) := by
    have paths := without_beside adds h (.selectionSet :: rest)
    simp only [congrFun paths]
  have one := set_mapIdx_eq at_i others
  rw [Document.shedAt?, Document.addWhere, List.getElem?_mapIdx, at_i]
  simp only [Option.bind_eq_bind, Option.bind_some, Option.map_some, Definition.selectionSet_withSet,
    Definition.withSet_withSet, below_i]
  rw [without_below] at one
  exact congrArg (fun definitions => some (Document.mk definitions)) one

/-- Taking out what was added at some paths, one after the other, leaves nothing of it. -/
theorem Document.foldlM_shedAt?_addWhere (d : Document ν) {paths : List (List Segment)} (nodup : paths.Nodup)
    (found : ∀ path ∈ paths, (d.setAt? path).isSome = true) :
    paths.foldlM Document.shedAt? (d.addWhere fun path => path ∈ paths) = some d := by
  induction paths with
  | nil =>
    have nowhere : (fun path : List Segment => decide (path ∈ [])) = fun _ => false := by simp
    rw [List.foldlM_nil, nowhere, Document.addWhere_none]
    rfl
  | cons path paths ih =>
    rw [List.nodup_cons] at nodup
    rw [List.forall_mem_cons] at found
    have rest : without (fun p => decide (p ∈ path :: paths)) path = fun p => decide (p ∈ paths) := by
      funext p
      by_cases h : p = path
      · simp [without, h, nodup.1]
      · simp [without, h]
    rw [List.foldlM_cons, Document.shedAt?_addWhere _ found.1 (by simp), rest]
    exact ih nodup.2 found.2

end PersistedQuery
