import PersistedQuery.Proofs.Fold.Places

/-!
# The selection sets of a document

A selection set is found by the path that a fold tells its folder there: `Document.setAt?` walks down the path, and
`Document.sets` lists all the sets with their places.

* `Document.mem_sets_iff`: the list holds the sets that are found, each at its path and with its owner.
* `Document.filter_postOrder`: a fold comes to them in the order of the list.
* `Document.nodup_sets`: no two of them stand at the same path.
* `Document.countP_setAt?`: as many sets are found on the way down to a set as the depth of its path says.
-/

namespace PersistedQuery

variable {ν : Type}

/-! ### Owners -/

/-- The set that a selection owns, after the kind of its owner. -/
def Selection.owned? : Selection ν → Option (Owner × SelectionSet ν)
  | .field f => some (.field, f.selectionSet)
  | .spread _ => none
  | .inlineFragment f => some (.inlineFragment, f.selectionSet)

def Definition.owner : Definition ν → Owner
  | .operation _ => .operation
  | .fragment _ => .fragment

/-- A property of sets holds of all of them if it passes to a set from the sets that its selections own. -/
@[elab_as_elim]
theorem SelectionSet.induction {motive : SelectionSet ν → Prop}
    (h : ∀ set : SelectionSet ν,
      (∀ s ∈ set, ∀ owner below, s.owned? = some (owner, below) → motive below) → motive set)
    (set : SelectionSet ν) : motive set := by
  have owned (s : Selection ν) : ∀ owner below, s.owned? = some (owner, below) → motive below := by
    induction s using Selection.induction with
    | spread s => rintro _ _ ⟨⟩
    | field f ih | inlineFragment f ih =>
      rintro _ _ ⟨⟩
      exact h _ ih
  exact h set fun s _ => owned s

/-! ### Walking down -/

/-- The set that a path leads to from the set of an owner, after the kind of its own owner. -/
def SelectionSet.at? (owner : Owner) (set : SelectionSet ν) : List Segment → Option (Owner × SelectionSet ν)
  | [] => some (owner, set)
  | .index i :: .selectionSet :: path =>
    (set[i]?.bind Selection.owned?).bind fun below => SelectionSet.at? below.1 below.2 path
  | _ => none

/-- The set at a path, after the kind of its owner. -/
def Document.setAt? (d : Document ν) : List Segment → Option (Owner × SelectionSet ν)
  | .index i :: .selectionSet :: path => d.definitions[i]?.bind fun x => SelectionSet.at? x.owner x.selectionSet path
  | _ => none

theorem SelectionSet.at?_index {owner : Owner} {set : SelectionSet ν} {i : Nat} {path : List Segment}
    {found : Owner × SelectionSet ν} :
    SelectionSet.at? owner set (.index i :: .selectionSet :: path) = some found ↔
      ∃ s below, set[i]? = some s ∧ s.owned? = some below ∧ SelectionSet.at? below.1 below.2 path = some found := by
  simp only [SelectionSet.at?, Option.bind_eq_some_iff]
  constructor
  · rintro ⟨below, ⟨s, at_i, owned⟩, rest⟩
    exact ⟨s, below, at_i, owned, rest⟩
  · rintro ⟨s, below, at_i, owned, rest⟩
    exact ⟨below, ⟨s, at_i, owned⟩, rest⟩

/-- A path to a set alternates between positions and the sets of their selections. -/
theorem SelectionSet.at?_cases {owner : Owner} {set : SelectionSet ν} {path : List Segment}
    {found : Owner × SelectionSet ν} (h : SelectionSet.at? owner set path = some found) :
    (path = [] ∧ found = (owner, set)) ∨
      ∃ i rest s below, path = .index i :: .selectionSet :: rest ∧ set[i]? = some s ∧ s.owned? = some below ∧
        SelectionSet.at? below.1 below.2 rest = some found := by
  unfold SelectionSet.at? at h
  split at h
  · exact .inl ⟨rfl, (Option.some.inj h).symm⟩
  · rename_i i rest
    have at_path : SelectionSet.at? owner set (.index i :: .selectionSet :: rest) = some found := h
    obtain ⟨s, below, at_i, owned, at_rest⟩ := SelectionSet.at?_index.1 at_path
    exact .inr ⟨i, rest, s, below, rfl, at_i, owned, at_rest⟩
  · cases h

theorem Document.setAt?_cases {d : Document ν} {path : List Segment} {found : Owner × SelectionSet ν}
    (h : d.setAt? path = some found) :
    ∃ i rest x, path = .index i :: .selectionSet :: rest ∧ d.definitions[i]? = some x ∧
      SelectionSet.at? x.owner x.selectionSet rest = some found := by
  unfold Document.setAt? at h
  split at h
  · rename_i i rest
    obtain ⟨x, at_i, at_rest⟩ := Option.bind_eq_some_iff.1 h
    exact ⟨i, rest, x, rfl, at_i, at_rest⟩
  · cases h

/-! ### Enumeration -/

mutual

/-- The sets below a selection at a place in post-order, each with its place. -/
def Selection.sets (visit : Visit) : Selection ν → List (Visit × SelectionSet ν)
  | .field f =>
    SelectionSet.setsFrom (visit.within .field) 0 f.selectionSet ++ [(visit.within .field, f.selectionSet)]
  | .spread _ => []
  | .inlineFragment f =>
    SelectionSet.setsFrom (visit.within .inlineFragment) 0 f.selectionSet ++
      [(visit.within .inlineFragment, f.selectionSet)]

/-- The sets below the selections of a set from position `i` on. -/
def SelectionSet.setsFrom (visit : Visit) (i : Nat) : SelectionSet ν → List (Visit × SelectionSet ν)
  | [] => []
  | s :: set => s.sets (visit.child i) ++ SelectionSet.setsFrom visit (i + 1) set

end

def SelectionSet.sets (visit : Visit) (set : SelectionSet ν) : List (Visit × SelectionSet ν) :=
  SelectionSet.setsFrom visit 0 set ++ [(visit, set)]

def Definition.sets (visit : Visit) (x : Definition ν) : List (Visit × SelectionSet ν) :=
  SelectionSet.sets (visit.within x.owner) x.selectionSet

/-- The sets of the definitions of a document from position `i` on. -/
def Definition.setsFrom (visit : Visit) (i : Nat) : List (Definition ν) → List (Visit × SelectionSet ν)
  | [] => []
  | x :: xs => x.sets (visit.child i) ++ Definition.setsFrom visit (i + 1) xs

/-- The sets of a document in post-order, each with its place. -/
def Document.sets (d : Document ν) : List (Visit × SelectionSet ν) := Definition.setsFrom {} 0 d.definitions

theorem Selection.sets_of_owned {s : Selection ν} {owner : Owner} {set : SelectionSet ν}
    (h : s.owned? = some (owner, set)) (visit : Visit) :
    s.sets visit = SelectionSet.sets (visit.within owner) set := by
  cases s with
  | spread s => cases h
  | field f | inlineFragment f =>
    cases h
    rfl

theorem Selection.sets_of_not_owned {s : Selection ν} (h : s.owned? = none) (visit : Visit) : s.sets visit = [] := by
  cases s with
  | spread s => rfl
  | field f | inlineFragment f => cases h

theorem SelectionSet.setsFrom_eq_flatMap (visit : Visit) (i : Nat) (set : SelectionSet ν) :
    SelectionSet.setsFrom visit i set = (set.zipIdx i).flatMap fun x => x.1.sets (visit.child x.2) := by
  induction set generalizing i with
  | nil => rfl
  | cons s set ih => rw [SelectionSet.setsFrom, List.zipIdx_cons, List.flatMap_cons, ih]

theorem Definition.setsFrom_eq_flatMap (visit : Visit) (i : Nat) (xs : List (Definition ν)) :
    Definition.setsFrom visit i xs = (xs.zipIdx i).flatMap fun x => x.1.sets (visit.child x.2) := by
  induction xs generalizing i with
  | nil => rfl
  | cons x xs ih => rw [Definition.setsFrom, List.zipIdx_cons, List.flatMap_cons, ih]

/-! ### The sets that are listed are those that are found -/

/-- The sets below a selection are listed if those of the set that it owns are. -/
private theorem Selection.mem_sets_iff_of_forall {s : Selection ν}
    (h : ∀ owner set, s.owned? = some (owner, set) → ∀ (visit v : Visit) (t : SelectionSet ν),
      (v, t) ∈ SelectionSet.sets visit set ↔ ∃ path, v.path.segments = visit.path.segments ++ path ∧
        SelectionSet.at? visit.parent set path = some (v.parent, t))
    (visit v : Visit) (t : SelectionSet ν) :
    (v, t) ∈ s.sets visit ↔
      ∃ below path, s.owned? = some below ∧ v.path.segments = visit.path.segments ++ .selectionSet :: path ∧
        SelectionSet.at? below.1 below.2 path = some (v.parent, t) := by
  cases owned : s.owned? with
  | none => simp [Selection.sets_of_not_owned owned]
  | some below =>
    obtain ⟨owner, set⟩ := below
    rw [Selection.sets_of_owned owned, h owner set owned (visit.within owner) v t]
    simp [Visit.within, Path.push]

/-- The list for a set at a place holds the sets that paths lead to from there. -/
theorem SelectionSet.mem_sets_iff (set : SelectionSet ν) (visit v : Visit) (t : SelectionSet ν) :
    (v, t) ∈ SelectionSet.sets visit set ↔ ∃ path, v.path.segments = visit.path.segments ++ path ∧
      SelectionSet.at? visit.parent set path = some (v.parent, t) := by
  induction set using SelectionSet.induction generalizing visit v t with
  | h set ih =>
    have below : (v, t) ∈ SelectionSet.setsFrom visit 0 set ↔
        ∃ i s, set[i]? = some s ∧ ∃ below path, s.owned? = some below ∧
          v.path.segments = visit.path.segments ++ .index i :: .selectionSet :: path ∧
            SelectionSet.at? below.1 below.2 path = some (v.parent, t) := by
      rw [SelectionSet.setsFrom_eq_flatMap]
      simp only [List.mem_flatMap, Prod.exists, List.mem_zipIdx_iff_getElem?]
      constructor
      · rintro ⟨s, i, at_i, mem⟩
        rw [Selection.mem_sets_iff_of_forall (ih s (List.mem_of_getElem? at_i))] at mem
        exact ⟨i, s, at_i, by simpa [Visit.child, Path.push] using mem⟩
      · rintro ⟨i, s, at_i, found⟩
        refine ⟨s, i, at_i, ?_⟩
        rw [Selection.mem_sets_iff_of_forall (ih s (List.mem_of_getElem? at_i))]
        simpa [Visit.child, Path.push] using found
    rw [SelectionSet.sets, List.mem_append, below, List.mem_singleton]
    constructor
    · rintro (⟨i, s, at_i, below, path, owned, place, found⟩ | own)
      · exact ⟨_, place, SelectionSet.at?_index.2 ⟨s, below, at_i, owned, found⟩⟩
      · cases own
        exact ⟨[], (List.append_nil _).symm, rfl⟩
    · rintro ⟨path, place, found⟩
      obtain ⟨rfl, own⟩ | ⟨i, rest, s, below, rfl, at_i, owned, found⟩ := SelectionSet.at?_cases found
      · right
        obtain ⟨⟨segments⟩, parent⟩ := v
        cases own
        rw [List.append_nil] at place
        cases place
        rfl
      · exact .inl ⟨i, s, at_i, below, rest, owned, place, found⟩

/-- The list holds the sets that are found, each at its path and with its owner. -/
theorem Document.mem_sets_iff (d : Document ν) (v : Visit) (t : SelectionSet ν) :
    (v, t) ∈ d.sets ↔ d.setAt? v.path.segments = some (v.parent, t) := by
  have definition (x : Definition ν) (i : Nat) : (v, t) ∈ x.sets (Visit.child {} i) ↔
      ∃ path, v.path.segments = .index i :: .selectionSet :: path ∧
        SelectionSet.at? x.owner x.selectionSet path = some (v.parent, t) :=
    SelectionSet.mem_sets_iff x.selectionSet (Visit.within (Visit.child {} i) x.owner) v t
  rw [Document.sets, Definition.setsFrom_eq_flatMap]
  simp only [List.mem_flatMap, Prod.exists, List.mem_zipIdx_iff_getElem?, definition]
  constructor
  · rintro ⟨x, i, at_i, path, place, found⟩
    rw [place, Document.setAt?, at_i]
    exact found
  · intro found
    obtain ⟨i, rest, x, place, at_i, found⟩ := Document.setAt?_cases found
    exact ⟨x, i, at_i, rest, place, found⟩

/-! ### The order of a fold -/

/-- Whether a step is for a set. -/
def Callback.isSelectionSet (callback : Callback) : Bool := callback = .selectionSet

private theorem SelectionSet.filter_postOrderFrom {set : SelectionSet ν}
    (each : ∀ s ∈ set, ∀ visit, (s.postOrder visit).filter (·.1.isSelectionSet) =
      (s.sets visit).map fun x => (.selectionSet, x.1)) (visit : Visit) (i : Nat) :
    (SelectionSet.postOrderFrom visit i set).filter (·.1.isSelectionSet) =
      (SelectionSet.setsFrom visit i set).map fun x => (.selectionSet, x.1) := by
  induction set generalizing i with
  | nil => rfl
  | cons s set ih =>
    rw [List.forall_mem_cons] at each
    rw [SelectionSet.postOrderFrom, SelectionSet.setsFrom, List.filter_append, List.map_append, each.1,
      ih each.2]

theorem Selection.filter_postOrder (s : Selection ν) (visit : Visit) :
    (s.postOrder visit).filter (·.1.isSelectionSet) = (s.sets visit).map fun x => (.selectionSet, x.1) := by
  induction s using Selection.induction generalizing visit with
  | field f ih | inlineFragment f ih =>
    rw [Selection.postOrder, Selection.sets, List.filter_append, List.filter_append, List.map_append,
      SelectionSet.filter_postOrderFrom ih]
    exact List.append_nil _
  | spread s => rfl

theorem Definition.filter_postOrder (x : Definition ν) (visit : Visit) :
    (x.postOrder visit).filter (·.1.isSelectionSet) = (x.sets visit).map fun x => (.selectionSet, x.1) := by
  have each (set : SelectionSet ν) : ∀ s ∈ set, _ := fun s _ => s.filter_postOrder
  cases x with
  | operation o | fragment o =>
    rw [Definition.postOrder, SelectionSet.postOrder, Definition.sets, SelectionSet.sets, List.filter_append,
      List.filter_append, List.map_append, SelectionSet.filter_postOrderFrom (each _)]
    exact List.append_nil _

/-- A fold comes to the sets of a document in the order of the list. -/
theorem Document.filter_postOrder (d : Document ν) :
    ((Node.document d).postOrder {}).filter (·.1.isSelectionSet) = d.sets.map fun x => (.selectionSet, x.1) := by
  have definitions (xs : List (Definition ν)) (i : Nat) :
      (Definition.postOrderFrom {} i xs).filter (·.1.isSelectionSet) =
        (Definition.setsFrom {} i xs).map fun x => (.selectionSet, x.1) := by
    induction xs generalizing i with
    | nil => rfl
    | cons x xs ih =>
      rw [Definition.postOrderFrom, Definition.setsFrom, List.filter_append, List.map_append,
        Definition.filter_postOrder, ih]
  exact definitions d.definitions 0

/-- No two sets of a document stand at the same path. -/
theorem Document.nodup_sets (d : Document ν) : (d.sets.map (·.1.path)).Nodup := by
  have places := ((Node.document d).separate_postOrder {}).nodup
  have sets : (((Node.document d).postOrder {}).filter (·.1.isSelectionSet)).map (·.2.path) =
      d.sets.map (·.1.path) := by
    rw [d.filter_postOrder, List.map_map]
    rfl
  rw [← sets]
  exact places.sublist (List.filter_sublist.map _)

/-! ### Depth -/

private theorem SelectionSet.countP_at? {owner : Owner} {set : SelectionSet ν} {path : List Segment}
    (h : (SelectionSet.at? owner set path).isSome = true) :
    path.inits.countP (fun q => (SelectionSet.at? owner set q).isSome) = path.count .selectionSet + 1 := by
  -- by recursion on the path: each step leads to one more set
  obtain ⟨found, h⟩ := Option.isSome_iff_exists.1 h
  obtain ⟨rfl, -⟩ | ⟨i, rest, s, below, rfl, at_i, owned, at_rest⟩ := SelectionSet.at?_cases h
  · rfl
  · have ih := SelectionSet.countP_at? (Option.isSome_iff_exists.2 ⟨found, at_rest⟩)
    have step (q : List Segment) : SelectionSet.at? owner set (.index i :: .selectionSet :: q) =
        SelectionSet.at? below.1 below.2 q := by
      rw [SelectionSet.at?, at_i, Option.bind_some, owned, Option.bind_some]
    simp only [List.inits, List.map_cons, List.map_map, List.countP_cons, List.countP_map, Function.comp_def, step, ih]
    simp [SelectionSet.at?]

/-- As many sets are found on the way down to a set, itself included, as the depth of its path says. -/
theorem Document.countP_setAt? {d : Document ν} {path : Path} (h : (d.setAt? path.segments).isSome = true) :
    path.segments.inits.countP (fun q => (d.setAt? q).isSome) = path.depth := by
  obtain ⟨found, h⟩ := Option.isSome_iff_exists.1 h
  obtain ⟨i, rest, x, place, at_i, at_rest⟩ := Document.setAt?_cases h
  have below := SelectionSet.countP_at? (Option.isSome_iff_exists.2 ⟨found, at_rest⟩)
  have step (q : List Segment) : d.setAt? (.index i :: .selectionSet :: q) =
      SelectionSet.at? x.owner x.selectionSet q := by
    rw [Document.setAt?, at_i, Option.bind_some]
  rw [Path.depth, place]
  simp only [List.inits, List.map_cons, List.map_map, List.countP_cons, List.countP_map, Function.comp_def, step, below]
  simp [Document.setAt?]

end PersistedQuery
