import PersistedQuery.Proofs.Composition

/-!
# Documents that differ by added fields

Adding `__typename` forgets whether a document had the field already where it would be added.  `Document.strip` takes
it out of exactly those places: where a bare `__typename` stands last in a set that would gain it without
(`TypenamePolicy.sheds_iff`).  Adding undoes stripping (`Document.inject_strip`) and stripping undoes adding
(`Document.strip_inject`), so documents are merged by the one exactly if they are merged by the other.
-/

namespace PersistedQuery

variable {ν : Type}

/-! ### Which sets lose the field -/

/-- The field named `__typename` without an alias, arguments, directives or selections. -/
def Selection.isBareTypename : Selection ν → Bool
  | .field ⟨none, name, [], [], []⟩ => name = typenameField
  | _ => false

theorem Selection.isBareTypename_iff (s : Selection ν) :
    s.isBareTypename = true ↔ s = .field (.leaf typenameField) := by
  unfold Selection.isBareTypename Field.leaf
  split
  · simp
  · rename_i other
    simp only [Bool.false_eq_true, false_iff]
    intro bare
    exact other typenameField bare

/-- A set sheds its last selection if that is the bare field, if it is not the only selection and no other one is a
field of that name, unless it is the set of an operation and the policy leaves those out. -/
def TypenamePolicy.Sheds (policy : TypenamePolicy) (owner : Owner) (set : SelectionSet ν) : Prop :=
  ¬ (policy = .exceptRoot ∧ owner = .operation) ∧ set.getLast? = some (.field (.leaf typenameField)) ∧
    1 < set.length ∧ ∀ f, .field f ∈ set.dropLast → f.name ≠ typenameField

/-- The sets that shed a field are those that would gain it again. -/
theorem TypenamePolicy.sheds_iff (policy : TypenamePolicy) (owner : Owner) (set : SelectionSet ν) :
    policy.Sheds owner set ↔ ∃ kept, set = kept ++ [.field (.leaf typenameField)] ∧ policy.Gains owner kept := by
  constructor
  · rintro ⟨admitted, last, others, names⟩
    obtain ⟨kept, rfl⟩ := List.getLast?_eq_some_iff.1 last
    rw [List.dropLast_concat] at names
    refine ⟨kept, rfl, ?_, names, admitted⟩
    rintro rfl
    simp at others
  · rintro ⟨kept, rfl, nonempty, names, admitted⟩
    refine ⟨admitted, List.getLast?_concat, ?_, ?_⟩
    · have := List.length_pos_iff.2 nonempty
      simp only [List.length_append, List.length_singleton]
      omega
    · rw [List.dropLast_concat]
      exact names

instance (policy : TypenamePolicy) (owner : Owner) (set : SelectionSet ν) : Decidable (policy.Sheds owner set) :=
  decidable_of_iff (set.getLast?.any Selection.isBareTypename = true ∧ policy.Gains owner set.dropLast) <| by
    rw [TypenamePolicy.sheds_iff, Option.any_eq_true]
    simp only [Selection.isBareTypename_iff]
    constructor
    · rintro ⟨⟨_, last, rfl⟩, gains⟩
      obtain ⟨kept, rfl⟩ := List.getLast?_eq_some_iff.1 last
      rw [List.dropLast_concat] at gains
      exact ⟨kept, rfl, gains⟩
    · rintro ⟨kept, rfl, gains⟩
      rw [List.dropLast_concat]
      exact ⟨⟨_, List.getLast?_concat, rfl⟩, gains⟩

/-- A set that gains the field has none of that name, so none to shed. -/
theorem TypenamePolicy.not_sheds_of_gains {p q : TypenamePolicy} {owner owner' : Owner} {set : SelectionSet ν}
    (h : p.Gains owner set) : ¬ q.Sheds owner' set := by
  intro sheds
  obtain ⟨kept, rfl, -⟩ := (q.sheds_iff owner' set).1 sheds
  exact h.2.1 (.leaf typenameField) (by simp) rfl

/-! ### The document without the field -/

section

variable (policy : TypenamePolicy)

/-- The stripped selections of an owner's set, without the last one where the set sheds it. -/
def TypenamePolicy.shed (owner : Owner) (set stripped : SelectionSet ν) : SelectionSet ν :=
  if policy.Sheds owner set then stripped.dropLast else stripped

mutual

def Selection.strip : Selection ν → Selection ν
  | .field f =>
    .field { f with selectionSet := policy.shed .field f.selectionSet (SelectionSet.stripEach f.selectionSet) }
  | .spread s => .spread s
  | .inlineFragment f =>
    .inlineFragment
      { f with selectionSet := policy.shed .inlineFragment f.selectionSet (SelectionSet.stripEach f.selectionSet) }

/-- Each selection of a set with the sets below it stripped, but nothing taken from the set itself. -/
def SelectionSet.stripEach : SelectionSet ν → SelectionSet ν
  | [] => []
  | s :: set => s.strip :: SelectionSet.stripEach set

end

/-- The set of an owner without `__typename` in it and in the sets below it, where they shed it. -/
def SelectionSet.strip (owner : Owner) (set : SelectionSet ν) : SelectionSet ν :=
  policy.shed owner set (SelectionSet.stripEach policy set)

def Definition.strip : Definition ν → Definition ν
  | .operation o => .operation { o with selectionSet := SelectionSet.strip policy .operation o.selectionSet }
  | .fragment f => .fragment { f with selectionSet := SelectionSet.strip policy .fragment f.selectionSet }

/-- The document without `__typename` in all the sets that shed it. -/
def Document.strip (d : Document ν) : Document ν := ⟨d.definitions.map (Definition.strip policy)⟩

theorem SelectionSet.stripEach_eq_map (set : SelectionSet ν) :
    SelectionSet.stripEach policy set = set.map (Selection.strip policy) := by
  induction set with
  | nil => rfl
  | cons s set ih => simp [SelectionSet.stripEach, ih]

theorem Selection.strip_field (f : Field ν (Selection ν)) :
    (Selection.field f).strip policy =
      .field { f with selectionSet := SelectionSet.strip policy .field f.selectionSet } := by
  rw [Selection.strip, SelectionSet.strip]

theorem Selection.strip_inlineFragment (f : InlineFragment ν (Selection ν)) :
    (Selection.inlineFragment f).strip policy =
      .inlineFragment { f with selectionSet := SelectionSet.strip policy .inlineFragment f.selectionSet } := by
  rw [Selection.strip, SelectionSet.strip]

theorem Selection.field?_strip (s : Selection ν) :
    (s.strip policy).field?.map (·.name) = s.field?.map (·.name) := by
  cases s with
  | field f => rw [Selection.strip_field]; rfl
  | spread s => rfl
  | inlineFragment f => rw [Selection.strip_inlineFragment]; rfl

/-! ### One set -/

variable {policy}

private theorem SelectionSet.strip_of_sheds {owner : Owner} {kept : SelectionSet ν}
    (h : policy.Gains owner kept) :
    SelectionSet.strip policy owner (kept ++ [.field (.leaf typenameField)]) = kept.map (Selection.strip policy) := by
  have sheds : policy.Sheds owner (kept ++ [.field (.leaf typenameField)]) :=
    (policy.sheds_iff owner _).2 ⟨kept, rfl, h⟩
  rw [SelectionSet.strip, TypenamePolicy.shed, if_pos sheds, SelectionSet.stripEach_eq_map, List.map_append,
    List.map_singleton, List.dropLast_concat]

private theorem SelectionSet.strip_of_not_sheds {owner : Owner} {set : SelectionSet ν} (h : ¬ policy.Sheds owner set) :
    SelectionSet.strip policy owner set = set.map (Selection.strip policy) := by
  rw [SelectionSet.strip, TypenamePolicy.shed, if_neg h, SelectionSet.stripEach_eq_map]

private theorem SelectionSet.inject_of_gains {owner : Owner} {set : SelectionSet ν} (h : policy.Gains owner set) :
    SelectionSet.inject policy owner set = set.map (Selection.inject policy) ++ [.field (.leaf typenameField)] := by
  rw [SelectionSet.inject, TypenamePolicy.gained, if_pos h, SelectionSet.injectEach_eq_map]

private theorem SelectionSet.inject_of_not_gains {owner : Owner} {set : SelectionSet ν}
    (h : ¬ policy.Gains owner set) : SelectionSet.inject policy owner set = set.map (Selection.inject policy) := by
  rw [SelectionSet.inject, TypenamePolicy.gained, if_neg h, SelectionSet.injectEach_eq_map, List.append_nil]

/-- Only the bare field becomes the bare field, since no set becomes empty. -/
private theorem Selection.inject_eq_typename_iff (s : Selection ν) :
    s.inject policy = .field (.leaf typenameField) ↔ s = .field (.leaf typenameField) := by
  constructor
  · intro h
    cases s with
    | field f =>
      obtain ⟨aliasName, name, arguments, directives, set⟩ := f
      rw [Selection.inject_field] at h
      simp only [Field.leaf, Selection.field.injEq, Field.mk.injEq, SelectionSet.inject_eq_nil_iff] at h ⊢
      exact h
    | spread s => cases h
    | inlineFragment f =>
      rw [Selection.inject_inlineFragment] at h
      cases h
  · rintro rfl
    exact Selection.inject_typename policy

private theorem TypenamePolicy.sheds_map_inject (owner : Owner) (set : SelectionSet ν) :
    policy.Sheds owner (set.map (Selection.inject policy)) ↔ policy.Sheds owner set := by
  have gains (kept : SelectionSet ν) := policy.gains_map (Selection.field?_inject policy) owner kept
  rw [TypenamePolicy.sheds_iff, TypenamePolicy.sheds_iff]
  constructor
  · rintro ⟨kept, split, h⟩
    obtain ⟨before, last, rfl, rfl, single⟩ := List.map_eq_append_iff.1 split
    obtain ⟨s, rfl, bare⟩ := List.map_eq_singleton_iff.1 single
    rw [(Selection.inject_eq_typename_iff s).1 bare]
    exact ⟨before, rfl, (gains before).1 h⟩
  · rintro ⟨kept, rfl, h⟩
    refine ⟨kept.map (Selection.inject policy), ?_, (gains kept).2 h⟩
    rw [List.map_append, List.map_singleton, Selection.inject_typename]

private theorem SelectionSet.inject_strip_of_forall (owner : Owner) {set : SelectionSet ν}
    (h : ∀ s ∈ set, (s.strip policy).inject policy = s.inject policy) :
    SelectionSet.inject policy owner (SelectionSet.strip policy owner set) = SelectionSet.inject policy owner set := by
  have gains (set : SelectionSet ν) := policy.gains_map (Selection.field?_strip policy) owner set
  by_cases sheds : policy.Sheds owner set
  · -- the field that is taken out is added again
    obtain ⟨kept, rfl, again⟩ := (policy.sheds_iff owner set).1 sheds
    have not_gains : ¬ policy.Gains owner (kept ++ [.field (.leaf typenameField)]) := fun gains =>
      TypenamePolicy.not_sheds_of_gains gains sheds
    have each : (kept.map (Selection.strip policy)).map (Selection.inject policy) =
        kept.map (Selection.inject policy) := by
      rw [List.map_map]
      exact List.map_congr_left fun s mem => h s (List.mem_append_left _ mem)
    rw [SelectionSet.strip_of_sheds again, SelectionSet.inject_of_gains ((gains kept).2 again),
      SelectionSet.inject_of_not_gains not_gains, each, List.map_append, List.map_singleton, Selection.inject_typename]
  · have each : (set.map (Selection.strip policy)).map (Selection.inject policy) =
        set.map (Selection.inject policy) := by
      rw [List.map_map]
      exact List.map_congr_left h
    rw [SelectionSet.strip_of_not_sheds sheds]
    by_cases gain : policy.Gains owner set
    · rw [SelectionSet.inject_of_gains ((gains set).2 gain), SelectionSet.inject_of_gains gain, each]
    · rw [SelectionSet.inject_of_not_gains (mt (gains set).1 gain), SelectionSet.inject_of_not_gains gain, each]

private theorem SelectionSet.strip_inject_of_forall (owner : Owner) {set : SelectionSet ν}
    (h : ∀ s ∈ set, (s.inject policy).strip policy = s.strip policy) :
    SelectionSet.strip policy owner (SelectionSet.inject policy owner set) = SelectionSet.strip policy owner set := by
  have gains := policy.gains_map (Selection.field?_inject policy) owner set
  have each : (set.map (Selection.inject policy)).map (Selection.strip policy) =
      set.map (Selection.strip policy) := by
    rw [List.map_map]
    exact List.map_congr_left h
  by_cases gain : policy.Gains owner set
  · -- the field that is added is taken out again
    have not_sheds : ¬ policy.Sheds owner set := TypenamePolicy.not_sheds_of_gains gain
    rw [SelectionSet.inject_of_gains gain, SelectionSet.strip_of_sheds (gains.2 gain), each,
      SelectionSet.strip_of_not_sheds not_sheds]
  · -- a set that gains nothing sheds as before
    rw [SelectionSet.inject_of_not_gains gain]
    simp only [SelectionSet.strip, TypenamePolicy.shed, SelectionSet.stripEach_eq_map, each,
      TypenamePolicy.sheds_map_inject]

end

/-! ### Selections, definitions and documents -/

section

variable (policy : TypenamePolicy)

theorem Selection.inject_strip (s : Selection ν) : (s.strip policy).inject policy = s.inject policy := by
  induction s using Selection.induction with
  | field f ih =>
    rw [Selection.strip_field, Selection.inject_field, Selection.inject_field]
    rw [SelectionSet.inject_strip_of_forall .field ih]
  | spread s => rfl
  | inlineFragment f ih =>
    rw [Selection.strip_inlineFragment, Selection.inject_inlineFragment, Selection.inject_inlineFragment]
    rw [SelectionSet.inject_strip_of_forall .inlineFragment ih]

theorem Selection.strip_inject (s : Selection ν) : (s.inject policy).strip policy = s.strip policy := by
  induction s using Selection.induction with
  | field f ih =>
    rw [Selection.inject_field, Selection.strip_field, Selection.strip_field]
    rw [SelectionSet.strip_inject_of_forall .field ih]
  | spread s => rfl
  | inlineFragment f ih =>
    rw [Selection.inject_inlineFragment, Selection.strip_inlineFragment, Selection.strip_inlineFragment]
    rw [SelectionSet.strip_inject_of_forall .inlineFragment ih]

theorem SelectionSet.inject_strip (owner : Owner) (set : SelectionSet ν) :
    SelectionSet.inject policy owner (SelectionSet.strip policy owner set) = SelectionSet.inject policy owner set :=
  SelectionSet.inject_strip_of_forall owner fun s _ => s.inject_strip policy

theorem SelectionSet.strip_inject (owner : Owner) (set : SelectionSet ν) :
    SelectionSet.strip policy owner (SelectionSet.inject policy owner set) = SelectionSet.strip policy owner set :=
  SelectionSet.strip_inject_of_forall owner fun s _ => s.strip_inject policy

/-- What was stripped is added again, and nothing else. -/
theorem Document.inject_strip (d : Document ν) : (d.strip policy).inject policy = d.inject policy := by
  have definition (x : Definition ν) : (x.strip policy).inject policy = x.inject policy := by
    cases x with
    | operation o => simp only [Definition.strip, Definition.inject, SelectionSet.inject_strip]
    | fragment f => simp only [Definition.strip, Definition.inject, SelectionSet.inject_strip]
  simp only [Document.inject, Document.strip, List.map_map, Document.mk.injEq]
  exact List.map_congr_left fun x _ => definition x

/-- What was added is stripped again, and nothing else. -/
theorem Document.strip_inject (d : Document ν) : (d.inject policy).strip policy = d.strip policy := by
  have definition (x : Definition ν) : (x.inject policy).strip policy = x.strip policy := by
    cases x with
    | operation o => simp only [Definition.strip, Definition.inject, SelectionSet.strip_inject]
    | fragment f => simp only [Definition.strip, Definition.inject, SelectionSet.strip_inject]
  simp only [Document.inject, Document.strip, List.map_map, Document.mk.injEq]
  exact List.map_congr_left fun x _ => definition x

/-- Adding `__typename` makes two documents equal exactly if they are equal without the fields that it would add again:
a bare one at the end of a set that selects something else and no other field of that name, unless the policy leaves
out the set.  A document without these fields gains the same as with them, and the outcome without them is the document
without them. -/
theorem Document.addTypename_eq_iff_strip_eq (d e : Document ν) :
    ∃ d' e' : Document ν,
      (∀ before, (d.addTypename policy before).1 = .ok d') ∧
      (∀ before, (e.addTypename policy before).1 = .ok e') ∧
      (d' = e' ↔ d.strip policy = e.strip policy) ∧
      (∀ before, ((d.strip policy).addTypename policy before).1 = .ok d') ∧
      d'.strip policy = d.strip policy := by
  have added (x : Document ν) (before : List Event) : (x.addTypename policy before).1 = .ok (x.inject policy) := by
    rw [x.yields_addTypename policy before]
  refine ⟨d.inject policy, e.inject policy, added d, added e, ?_, ?_, d.strip_inject policy⟩
  · constructor
    · intro same
      rw [← d.strip_inject policy, same, e.strip_inject policy]
    · intro same
      rw [← d.inject_strip policy, same, e.inject_strip policy]
  · intro before
    rw [added, d.inject_strip]

end

end PersistedQuery
