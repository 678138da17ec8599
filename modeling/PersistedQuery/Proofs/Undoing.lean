import PersistedQuery.Proofs.Shedding

/-!
# Undoing

What adding `__typename` logs is enough to undo it: it adds the field at the paths of its events and nowhere else
(`Document.inject_eq_addWhere`, `Document.injections_eq`), and these paths lead to the same sets afterwards
(`Document.setAt?_inject`).

* `Document.addTypename_undoLog`: the events are those of the sets that grow, in the order of the fold, and taking the
  last selections out of these sets, in whatever order, gives the document back.
-/

namespace PersistedQuery

variable {ν : Type}

/-! ### Adding `__typename` adds at the paths of the sets that gain it -/

section

variable (policy : TypenamePolicy)

theorem Selection.inject_of_owned {s : Selection ν} {owner : Owner} {set : SelectionSet ν}
    (h : s.owned? = some (owner, set)) : s.inject policy = s.withSet (SelectionSet.inject policy owner set) := by
  cases s with
  | spread s => cases h
  | field f =>
    cases h
    exact Selection.inject_field policy f
  | inlineFragment f =>
    cases h
    exact Selection.inject_inlineFragment policy f

theorem Selection.inject_of_not_owned {s : Selection ν} (h : s.owned? = none) : s.inject policy = s := by
  cases s with
  | spread s => rfl
  | field f | inlineFragment f => cases h

theorem Definition.inject_eq_withSet (x : Definition ν) :
    x.inject policy = x.withSet (SelectionSet.inject policy x.owner x.selectionSet) := by
  cases x <;> rfl

/-- Whether a set that is found gains the field. -/
def TypenamePolicy.gainsAt (found : Option (Owner × SelectionSet ν)) : Bool :=
  found.any fun x => policy.Gains x.1 x.2

theorem SelectionSet.inject_eq_addWhere (owner : Owner) (set : SelectionSet ν) :
    SelectionSet.inject policy owner set =
      SelectionSet.addWhere (fun path => policy.gainsAt (SelectionSet.at? owner set path)) set := by
  induction set using SelectionSet.induction generalizing owner with
  | h set ih =>
    have each (i : Nat) : (set.mapIdx fun i s => s.addWhere fun path =>
        policy.gainsAt (SelectionSet.at? owner set (.index i :: path)))[i]? = set[i]?.map (Selection.inject policy) := by
      rw [List.getElem?_mapIdx]
      cases at_i : set[i]? with
      | none => rfl
      | some s =>
        rw [Option.map_some, Option.map_some, Option.some.injEq]
        cases owned : s.owned? with
        | none =>
          rw [Selection.inject_of_not_owned policy owned, Selection.addWhere_of_not_owned _ owned]
        | some below =>
          rw [Selection.inject_of_owned policy owned, Selection.addWhere_of_owned _ owned,
            ih s (List.mem_of_getElem? at_i) _ _ owned]
          simp only [SelectionSet.at?, at_i, owned, Option.bind_some]
    rw [SelectionSet.inject, SelectionSet.injectEach_eq_map, SelectionSet.addWhere_eq]
    congr 1
    · exact (List.ext_getElem? fun i => by rw [each i, List.getElem?_map]).symm
    · simp [TypenamePolicy.gained, SelectionSet.added, TypenamePolicy.gainsAt, SelectionSet.at?]

theorem Document.inject_eq_addWhere (d : Document ν) :
    d.inject policy = d.addWhere fun path => policy.gainsAt (d.setAt? path) := by
  have each (i : Nat) : (d.definitions.map (Definition.inject policy))[i]? =
      d.definitions[i]?.map fun x => x.withSet (SelectionSet.addWhere
        (fun path => policy.gainsAt (d.setAt? (.index i :: .selectionSet :: path))) x.selectionSet) := by
    rw [List.getElem?_map]
    cases at_i : d.definitions[i]? with
    | none => rfl
    | some x =>
      rw [Option.map_some, Option.map_some, Definition.inject_eq_withSet, SelectionSet.inject_eq_addWhere]
      simp only [Document.setAt?, at_i, Option.bind_some]
  rw [Document.inject, Document.addWhere, Document.mk.injEq]
  exact (List.mapIdx_eq_iff.2 each).symm

/-! ### The same paths afterwards -/

theorem SelectionSet.at?_inject {owner : Owner} {set : SelectionSet ν} {path : List Segment}
    {found : Owner × SelectionSet ν} (h : SelectionSet.at? owner set path = some found) :
    SelectionSet.at? owner (SelectionSet.inject policy owner set) path =
      some (found.1, SelectionSet.inject policy found.1 found.2) := by
  -- by recursion on the path; the field comes behind all selections that the path can lead through
  obtain ⟨rfl, rfl⟩ | ⟨i, rest, s, below, rfl, at_i, owned, at_rest⟩ := SelectionSet.at?_cases h
  · rfl
  · have bound : i < set.length := (List.getElem?_eq_some_iff.1 at_i).1
    have at_i' : (SelectionSet.inject policy owner set)[i]? = some (s.inject policy) := by
      rw [SelectionSet.inject, SelectionSet.injectEach_eq_map, List.getElem?_append_left (by simpa using bound),
        List.getElem?_map, at_i]
      rfl
    have owned' : (s.inject policy).owned? = some (below.1, SelectionSet.inject policy below.1 below.2) := by
      rw [Selection.inject_of_owned policy owned, Selection.owned?_withSet owned]
    exact SelectionSet.at?_index.2 ⟨_, _, at_i', owned', SelectionSet.at?_inject at_rest⟩

/-- A set stands at the same path afterwards, and under the same owner. -/
theorem Document.setAt?_inject {d : Document ν} {path : List Segment} {found : Owner × SelectionSet ν}
    (h : d.setAt? path = some found) :
    (d.inject policy).setAt? path = some (found.1, SelectionSet.inject policy found.1 found.2) := by
  obtain ⟨i, rest, x, rfl, at_i, at_rest⟩ := Document.setAt?_cases h
  rw [Document.setAt?, Document.inject, List.getElem?_map, at_i, Option.map_some, Option.bind_some,
    Definition.inject_eq_withSet, Definition.owner_withSet, Definition.selectionSet_withSet]
  exact SelectionSet.at?_inject policy at_rest

/-! ### Events -/

/-- Whether a set at a place gains the field. -/
def TypenamePolicy.gaining (x : Visit × SelectionSet ν) : Bool := policy.Gains x.1.parent x.2

/-- The event of a set at a place that gains the field. -/
def Visit.event (v : Visit) : Event := .addingTypename v.path v.parent

/-- The events of those of the sets that gain the field. -/
def TypenamePolicy.events (sets : List (Visit × SelectionSet ν)) : List Event :=
  (sets.filter policy.gaining).map (·.1.event)

theorem TypenamePolicy.events_append (a b : List (Visit × SelectionSet ν)) :
    policy.events (a ++ b) = policy.events a ++ policy.events b := by
  rw [events, List.filter_append, List.map_append]
  rfl

theorem TypenamePolicy.events_singleton (visit : Visit) (set : SelectionSet ν) :
    policy.events [(visit, set)] = policy.gainEvents visit.path visit.parent set := by
  by_cases h : policy.Gains visit.parent set
  · simp [events, gaining, gainEvents, h, Visit.event]
  · simp [events, gaining, gainEvents, h]

private theorem SelectionSet.injectionsFrom_eq {set : SelectionSet ν}
    (each : ∀ s ∈ set, ∀ visit : Visit, s.injections policy visit.path = policy.events (s.sets visit))
    (visit : Visit) (i : Nat) :
    SelectionSet.injectionsFrom policy visit.path i set = policy.events (SelectionSet.setsFrom visit i set) := by
  induction set generalizing i with
  | nil => rfl
  | cons s set ih =>
    rw [List.forall_mem_cons] at each
    rw [SelectionSet.injectionsFrom, SelectionSet.setsFrom, policy.events_append, ← each.1, ← ih each.2]
    rfl

theorem Selection.injections_eq (s : Selection ν) (visit : Visit) :
    s.injections policy visit.path = policy.events (s.sets visit) := by
  induction s using Selection.induction generalizing visit with
  | field f ih | inlineFragment f ih =>
    rw [Selection.injections, Selection.sets, policy.events_append, policy.events_singleton,
      ← SelectionSet.injectionsFrom_eq policy ih]
    rfl
  | spread s => rfl

theorem Definition.injections_eq (x : Definition ν) (visit : Visit) :
    x.injections policy visit.path = policy.events (x.sets visit) := by
  have each (set : SelectionSet ν) : ∀ s ∈ set, _ := fun s _ => s.injections_eq policy
  cases x with
  | operation o | fragment o =>
    rw [Definition.injections, SelectionSet.injections, Definition.sets, SelectionSet.sets, policy.events_append,
      policy.events_singleton, ← SelectionSet.injectionsFrom_eq policy (each _)]
    rfl

/-- The events of a document are those of its sets that gain the field. -/
theorem Document.injections_eq (d : Document ν) : d.injections policy = policy.events d.sets := by
  have definitions (xs : List (Definition ν)) (i : Nat) :
      Definition.injectionsFrom policy {} i xs = policy.events (Definition.setsFrom {} i xs) := by
    induction xs generalizing i with
    | nil => rfl
    | cons x xs ih =>
      rw [Definition.injectionsFrom, Definition.setsFrom, policy.events_append, ← Definition.injections_eq, ih]
      rfl
  exact definitions d.definitions 0

end

/-! ### Counting the fields -/

mutual

/-- The number of fields named `__typename` in a selection, whatever else they have. -/
def Selection.typenames : Selection ν → Nat
  | .field f => (if f.name = typenameField then 1 else 0) + SelectionSet.typenames f.selectionSet
  | .spread _ => 0
  | .inlineFragment f => SelectionSet.typenames f.selectionSet

def SelectionSet.typenames : SelectionSet ν → Nat
  | [] => 0
  | s :: set => s.typenames + SelectionSet.typenames set

end

/-- The number of these fields in all the sets of a document. -/
def Document.typenames (d : Document ν) : Nat :=
  SelectionSet.typenames (d.definitions.flatMap Definition.selectionSet)

theorem SelectionSet.typenames_append (a b : SelectionSet ν) :
    SelectionSet.typenames (a ++ b) = SelectionSet.typenames a + SelectionSet.typenames b := by
  induction a with
  | nil => simp [SelectionSet.typenames]
  | cons s a ih => rw [List.cons_append, SelectionSet.typenames, SelectionSet.typenames, ih, Nat.add_assoc]

section

variable (policy : TypenamePolicy)

private theorem SelectionSet.typenames_inject_of_forall {set : SelectionSet ν}
    (each : ∀ s ∈ set, ∀ path, (s.inject policy).typenames = s.typenames + (s.injections policy path).length)
    (path : Path) (owner : Owner) :
    SelectionSet.typenames (SelectionSet.inject policy owner set) =
      SelectionSet.typenames set + (SelectionSet.injections policy path owner set).length := by
  have below (i : Nat) : SelectionSet.typenames (SelectionSet.injectEach policy set) =
      SelectionSet.typenames set + (SelectionSet.injectionsFrom policy path i set).length := by
    induction set generalizing i with
    | nil => rfl
    | cons s set ih =>
      rw [List.forall_mem_cons] at each
      have first := each.1 (path.push (.index i))
      have rest := ih each.2 (i + 1)
      simp only [SelectionSet.injectEach, SelectionSet.injectionsFrom, SelectionSet.typenames, List.length_append]
      omega
  have own : SelectionSet.typenames (policy.gained owner set) = (policy.gainEvents path owner set).length := by
    by_cases h : policy.Gains owner set
    · simp [TypenamePolicy.gained, TypenamePolicy.gainEvents, h, SelectionSet.typenames, Selection.typenames, Field.leaf]
    · simp [TypenamePolicy.gained, TypenamePolicy.gainEvents, h, SelectionSet.typenames]
  rw [SelectionSet.inject, SelectionSet.injections, SelectionSet.typenames_append, List.length_append, below 0, own,
    Nat.add_assoc]

theorem Selection.typenames_inject (s : Selection ν) (path : Path) :
    (s.inject policy).typenames = s.typenames + (s.injections policy path).length := by
  induction s using Selection.induction generalizing path with
  | field f ih =>
    have set := SelectionSet.typenames_inject_of_forall policy ih (path.push .selectionSet) .field
    rw [Selection.inject_field, Selection.typenames, Selection.typenames, set, Nat.add_assoc]
    rfl
  | spread s => rfl
  | inlineFragment f ih =>
    have set := SelectionSet.typenames_inject_of_forall policy ih (path.push .selectionSet) .inlineFragment
    rw [Selection.inject_inlineFragment, Selection.typenames, Selection.typenames, set]
    rfl

/-- Each event stands for one more field. -/
theorem Document.typenames_inject (d : Document ν) :
    (d.inject policy).typenames = d.typenames + (d.injections policy).length := by
  have definition (x : Definition ν) (path : Path) : SelectionSet.typenames (x.inject policy).selectionSet =
      SelectionSet.typenames x.selectionSet + (x.injections policy path).length := by
    have each (set : SelectionSet ν) : ∀ s ∈ set, _ := fun s _ => s.typenames_inject policy
    cases x with
    | operation o => exact SelectionSet.typenames_inject_of_forall policy (each _) _ _
    | fragment f => exact SelectionSet.typenames_inject_of_forall policy (each _) _ _
  have definitions (xs : List (Definition ν)) (i : Nat) :
      SelectionSet.typenames ((xs.map (Definition.inject policy)).flatMap Definition.selectionSet) =
        SelectionSet.typenames (xs.flatMap Definition.selectionSet) +
          (Definition.injectionsFrom policy {} i xs).length := by
    induction xs generalizing i with
    | nil => rfl
    | cons x xs ih =>
      have first := definition x (Path.push {} (.index i))
      have rest := ih (i + 1)
      simp only [List.map_cons, List.flatMap_cons, SelectionSet.typenames_append, Definition.injectionsFrom,
        List.length_append]
      omega
  exact definitions d.definitions 0

end

/-! ### The log -/

/-- Whether the set at a path is longer in another document. -/
def Document.growsInto (d out : Document ν) (path : List Segment) : Bool :=
  match d.setAt? path, out.setAt? path with
  | some (_, set), some (_, grown) => set.length < grown.length
  | _, _ => false

section

variable (policy : TypenamePolicy)

theorem SelectionSet.length_lt_inject_iff (owner : Owner) (set : SelectionSet ν) :
    set.length < (SelectionSet.inject policy owner set).length ↔ policy.Gains owner set := by
  rw [SelectionSet.inject, SelectionSet.injectEach_eq_map, List.length_append, List.length_map]
  by_cases h : policy.Gains owner set
  · simp [TypenamePolicy.gained, h]
  · simp [TypenamePolicy.gained, h]

theorem Document.growsInto_inject {d : Document ν} {v : Visit} {set : SelectionSet ν}
    (found : d.setAt? v.path.segments = some (v.parent, set)) :
    d.growsInto (d.inject policy) v.path.segments = policy.gaining (v, set) := by
  rw [Document.growsInto, found, Document.setAt?_inject policy found, TypenamePolicy.gaining]
  exact decide_eq_decide.2 (SelectionSet.length_lt_inject_iff policy v.parent set)

/-- The places of the sets that gain the field, in post-order. -/
def Document.gainers (d : Document ν) : List Visit := (d.sets.filter policy.gaining).map (·.1)

theorem Document.mem_gainers_iff (d : Document ν) (v : Visit) :
    v ∈ d.gainers policy ↔ ∃ set, d.setAt? v.path.segments = some (v.parent, set) ∧ policy.Gains v.parent set := by
  simp only [Document.gainers, List.mem_map, List.mem_filter, Prod.exists, TypenamePolicy.gaining, decide_eq_true_eq]
  constructor
  · rintro ⟨w, set, ⟨mem, gains⟩, rfl⟩
    exact ⟨set, (d.mem_sets_iff w set).1 mem, gains⟩
  · rintro ⟨set, found, gains⟩
    exact ⟨v, set, ⟨(d.mem_sets_iff v set).2 found, gains⟩, rfl⟩

theorem Document.nodup_gainers (d : Document ν) : ((d.gainers policy).map (·.path)).Nodup := by
  rw [Document.gainers, List.map_map]
  exact d.nodup_sets.sublist (List.filter_sublist.map _)

/-- They are the sets that are longer afterwards, in the order of a fold. -/
theorem Document.gainers_eq_postOrder (d : Document ν) :
    d.gainers policy = (((Node.document d).postOrder {}).filter fun x =>
      x.1.isSelectionSet && d.growsInto (d.inject policy) x.2.path.segments).map (·.2) := by
  have grows : ∀ x ∈ d.sets, policy.gaining x = d.growsInto (d.inject policy) x.1.path.segments := by
    rintro ⟨v, set⟩ mem
    exact (Document.growsInto_inject policy ((d.mem_sets_iff v set).1 mem)).symm
  calc d.gainers policy
      = (d.sets.filter fun x => d.growsInto (d.inject policy) x.1.path.segments).map (·.1) := by
        rw [Document.gainers, List.filter_congr grows]
    _ = ((d.sets.map fun x => (Callback.selectionSet, x.1)).filter fun x =>
          d.growsInto (d.inject policy) x.2.path.segments).map (·.2) := by
        rw [List.filter_map, List.map_map]
        rfl
    _ = _ := by
        rw [← d.filter_postOrder, List.filter_filter]
        simp only [Bool.and_comm]

/-- Taking the last selections out of the sets that gain the field, in any order, gives the document back. -/
theorem Document.foldlM_shedAt?_inject (d : Document ν) {paths : List (List Segment)}
    (perm : paths.Perm ((d.gainers policy).map (·.path.segments))) :
    paths.foldlM Document.shedAt? (d.inject policy) = some d := by
  have mem (path : List Segment) :
      path ∈ paths ↔ ∃ v : Visit, v.path.segments = path ∧ ∃ set, d.setAt? path = some (v.parent, set) ∧
        policy.Gains v.parent set := by
    rw [perm.mem_iff, List.mem_map]
    constructor
    · rintro ⟨v, mem, rfl⟩
      exact ⟨v, rfl, (d.mem_gainers_iff policy v).1 mem⟩
    · rintro ⟨v, rfl, gains⟩
      exact ⟨v, (d.mem_gainers_iff policy v).2 gains, rfl⟩
  have nodup : paths.Nodup := by
    have segments : Function.Injective Path.segments := fun p q h => congrArg Path.mk h
    have unique := (d.nodup_gainers policy).map segments
    rw [List.map_map] at unique
    exact perm.nodup_iff.2 unique
  have found : ∀ path ∈ paths, (d.setAt? path).isSome = true := by
    intro path h
    obtain ⟨v, -, set, at_path, -⟩ := (mem path).1 h
    exact Option.isSome_iff_exists.2 ⟨_, at_path⟩
  have gains : (fun path => policy.gainsAt (d.setAt? path)) = fun path => decide (path ∈ paths) := by
    funext path
    rw [Bool.eq_iff_iff, decide_eq_true_eq, mem, TypenamePolicy.gainsAt, Option.any_eq_true]
    constructor
    · rintro ⟨⟨owner, set⟩, at_path, gains⟩
      exact ⟨⟨⟨path⟩, owner⟩, rfl, set, at_path, of_decide_eq_true gains⟩
    · rintro ⟨v, -, set, at_path, gains⟩
      exact ⟨(v.parent, set), at_path, decide_eq_true gains⟩
  rw [Document.inject_eq_addWhere, gains]
  exact d.foldlM_shedAt?_addWhere nodup found

/-- Adding `__typename` logs one event for each set that grows, in the order in which a fold comes to the sets of the
document, and none twice.  An event tells the path of the set, which is the same before and after, the number of sets on
the way down to it and the owner of the set.  The set has a bare `__typename` at its end afterwards, and taking the last
selections out of these sets, in whatever order, gives the document back.  The fields of that name become as many more
as there are events, and there is none exactly if the document stays as it is. -/
theorem Document.addTypename_undoLog (d : Document ν) :
    ∃ (out : Document ν) (visits : List Visit),
      (∀ before, d.addTypename policy before =
        (.ok out, before ++ visits.map fun v => .addingTypename v.path v.parent)) ∧
      visits = (((Node.document d).postOrder {}).filter fun x =>
        x.1.isSelectionSet && d.growsInto out x.2.path.segments).map (·.2) ∧
      (visits.map (·.path)).Nodup ∧
      (∀ v, v ∈ visits ↔ ∃ set grown, d.setAt? v.path.segments = some (v.parent, set) ∧
        out.setAt? v.path.segments = some (v.parent, grown) ∧ set.length < grown.length) ∧
      (∀ v ∈ visits,
        (Event.addingTypename v.path v.parent).details =
          [("path", .text (String.ofList v.path.text)),
            ("depth", .count (v.path.segments.inits.countP fun q => (d.setAt? q).isSome)),
            ("parent", .text v.parent.name)] ∧
        ∃ kept, out.setAt? v.path.segments = some (v.parent, kept ++ [.field (.leaf typenameField)])) ∧
      (∀ paths, List.Perm paths (visits.map (·.path.segments)) → paths.foldlM Document.shedAt? out = some d) ∧
      out.typenames = d.typenames + visits.length ∧ (visits = [] ↔ out = d) := by
  have events : d.injections policy = (d.gainers policy).map Visit.event := by
    rw [d.injections_eq, TypenamePolicy.events, Document.gainers, List.map_map]
    rfl
  have count : (d.inject policy).typenames = d.typenames + (d.gainers policy).length := by
    rw [d.typenames_inject, events, List.length_map]
  refine ⟨d.inject policy, d.gainers policy, ?_, d.gainers_eq_postOrder policy, d.nodup_gainers policy, ?_, ?_,
    fun paths perm => d.foldlM_shedAt?_inject policy perm, count, ?_⟩
  · intro before
    rw [d.yields_addTypename policy before, events]
    rfl
  · intro v
    rw [Document.mem_gainers_iff]
    constructor
    · rintro ⟨set, found, gains⟩
      exact ⟨set, _, found, Document.setAt?_inject policy found, (SelectionSet.length_lt_inject_iff _ _ _).2 gains⟩
    · rintro ⟨set, grown, found, found', longer⟩
      rw [Document.setAt?_inject policy found] at found'
      cases found'
      exact ⟨set, found, (SelectionSet.length_lt_inject_iff _ _ _).1 longer⟩
  · intro v mem
    obtain ⟨set, found, gains⟩ := (d.mem_gainers_iff policy v).1 mem
    refine ⟨?_, SelectionSet.injectEach policy set, ?_⟩
    · rw [Event.details, ← Document.countP_setAt? (Option.isSome_iff_exists.2 ⟨_, found⟩)]
    · rw [Document.setAt?_inject policy found, SelectionSet.inject, TypenamePolicy.gained, if_pos gains]
  · constructor
    · intro unchanged
      have paths : List.Perm [] ((d.gainers policy).map (·.path.segments)) := by
        rw [unchanged]
        exact List.Perm.nil
      exact Option.some.inj (d.foldlM_shedAt?_inject policy paths)
    · intro same
      rw [same] at count
      exact List.length_eq_zero_iff.1 (by omega)

end

/-- The query `{ a { b { c } } }` with these selections behind those of the sets of `a` and `b`. -/
def Document.nestedWith (more : SelectionSet Numeral) : Document Numeral :=
  ⟨[.operation (.shorthand
    [.field ⟨none, "a", [], [], .field ⟨none, "b", [], [], .field (.leaf "c") :: more⟩ :: more⟩])]⟩

/-- Two sets, one inside the other, gain the field.  The event of the inner one comes first, but taking the field out of
the outer one first works as well. -/
theorem Document.addTypename_undoLog_nested :
    ∃ (inner outer : Visit),
      (Document.nestedWith []).addTypename .exceptRoot [] =
        (.ok (Document.nestedWith [.field (.leaf typenameField)]),
          [.addingTypename inner.path .field, .addingTypename outer.path .field]) ∧
      (Event.addingTypename inner.path inner.parent).details =
        [("path", .text "0.selectionSet.0.selectionSet.0.selectionSet"), ("depth", .count 3),
          ("parent", .text "Field")] ∧
      List.Perm [outer.path.segments, inner.path.segments] [inner.path.segments, outer.path.segments] ∧
      [outer.path.segments, inner.path.segments].foldlM Document.shedAt?
        (Document.nestedWith [.field (.leaf typenameField)]) = some (Document.nestedWith []) := by
  obtain ⟨out, visits, run, order, -, -, details, undo, -, -⟩ :=
    Document.addTypename_undoLog .exceptRoot (Document.nestedWith [])
  have out_eq : out = Document.nestedWith [.field (.leaf typenameField)] := by
    have ok := congrArg Prod.fst (run [])
    cases ok
    rfl
  subst out_eq
  have visits_eq : visits =
      [⟨⟨[.index 0, .selectionSet, .index 0, .selectionSet, .index 0, .selectionSet]⟩, .field⟩,
        ⟨⟨[.index 0, .selectionSet, .index 0, .selectionSet]⟩, .field⟩] := order
  subst visits_eq
  have inner := (details _ List.mem_cons_self).1
  exact ⟨_, _, run [], inner, List.Perm.swap _ _ _, undo _ (List.Perm.swap _ _ _)⟩

end PersistedQuery
