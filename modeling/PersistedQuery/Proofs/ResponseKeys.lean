import Mathlib.Data.List.Dedup
import PersistedQuery.Proofs.Undoing

/-!
# Response keys

The answer to a field stands under its alias, or under its name if it has none.  A set that gains `__typename` has no
field of that name, but it may have another field under that alias.  Then, and only then, the key is there twice
(`TypenamePolicy.mem_responseKeys_of_gains`, `repetitions_concat`).

* `Document.addTypename_responseKeys`: the keys of each set of a document before and after.
-/

namespace PersistedQuery

variable {ν : Type}

/-! ### Repetitions -/

/-- How many keys are left over if each is taken once. -/
def repetitions (keys : List String) : Nat := keys.length - keys.dedup.length

theorem repetitions_eq_zero_iff (keys : List String) : repetitions keys = 0 ↔ keys.Nodup := by
  have shorter : keys.dedup.length ≤ keys.length := keys.dedup_sublist.length_le
  rw [← List.dedup_eq_self]
  unfold repetitions
  constructor
  · intro equal
    exact keys.dedup_sublist.eq_of_length (by omega)
  · intro same
    rw [same]
    omega

/-- One more key is a repetition if it is there already. -/
theorem repetitions_concat (keys : List String) (key : String) :
    repetitions (keys ++ [key]) = repetitions keys + if key ∈ keys then 1 else 0 := by
  have shorter : keys.dedup.length ≤ keys.length := keys.dedup_sublist.length_le
  have first : (keys ++ [key]).dedup.length = (key :: keys).dedup.length :=
    (List.perm_append_singleton key keys).dedup.length_eq
  unfold repetitions
  rw [first, List.length_append, List.length_singleton]
  by_cases mem : key ∈ keys
  · rw [if_pos mem, List.dedup_cons_of_mem mem]
    omega
  · rw [if_neg mem, List.dedup_cons_of_notMem mem, List.length_cons]
    omega

/-! ### Keys of a set -/

/-- The key of the answer to a field. -/
def Field.responseKey {σ : Type} (f : Field ν σ) : String := f.aliasName.getD f.name

def Selection.responseKey? (s : Selection ν) : Option String := s.field?.map Field.responseKey

/-- The keys of the fields that stand in the set itself. -/
def SelectionSet.responseKeys (set : SelectionSet ν) : List String := set.filterMap Selection.responseKey?

/-- A field of another name in the set itself has the alias `__typename`. -/
def SelectionSet.AliasesTypename (set : SelectionSet ν) : Prop :=
  ∃ f, .field f ∈ set ∧ f.name ≠ typenameField ∧ f.aliasName = some typenameField

theorem SelectionSet.responseKeys_append (a b : SelectionSet ν) :
    SelectionSet.responseKeys (a ++ b) = SelectionSet.responseKeys a ++ SelectionSet.responseKeys b :=
  List.filterMap_append

theorem SelectionSet.mem_responseKeys_iff {set : SelectionSet ν} {key : String} :
    key ∈ SelectionSet.responseKeys set ↔ ∃ f, .field f ∈ set ∧ f.responseKey = key := by
  unfold SelectionSet.responseKeys
  rw [List.mem_filterMap]
  constructor
  · rintro ⟨s, mem, own⟩
    cases s with
    | field f => exact ⟨f, mem, Option.some.inj own⟩
    | spread s => cases own
    | inlineFragment f => cases own
  · rintro ⟨f, mem, rfl⟩
    exact ⟨.field f, mem, rfl⟩

section

variable (policy : TypenamePolicy)

theorem Selection.responseKey?_inject (s : Selection ν) : (s.inject policy).responseKey? = s.responseKey? := by
  cases s with
  | field f =>
    rw [Selection.inject_field]
    rfl
  | spread s => rfl
  | inlineFragment f =>
    rw [Selection.inject_inlineFragment]
    rfl

theorem SelectionSet.responseKeys_injectEach (set : SelectionSet ν) :
    SelectionSet.responseKeys (SelectionSet.injectEach policy set) = SelectionSet.responseKeys set := by
  rw [SelectionSet.injectEach_eq_map, SelectionSet.responseKeys, SelectionSet.responseKeys, List.filterMap_map]
  exact List.filterMap_congr fun s _ => s.responseKey?_inject policy

/-- A set that gains the field has its key already if another field has taken it for an alias. -/
theorem TypenamePolicy.mem_responseKeys_of_gains {owner : Owner} {set : SelectionSet ν}
    (gains : policy.Gains owner set) : typenameField ∈ SelectionSet.responseKeys set ↔ set.AliasesTypename := by
  rw [SelectionSet.mem_responseKeys_iff]
  constructor
  · rintro ⟨f, mem, key⟩
    have name : f.name ≠ typenameField := gains.2.1 f mem
    refine ⟨f, mem, name, ?_⟩
    unfold Field.responseKey at key
    cases aliased : f.aliasName with
    | none =>
      rw [aliased] at key
      exact absurd key name
    | some a =>
      rw [aliased] at key
      exact congrArg some key
  · rintro ⟨f, mem, -, aliased⟩
    refine ⟨f, mem, ?_⟩
    rw [Field.responseKey, aliased, Option.getD_some]

theorem SelectionSet.responseKeys_inject_of_gains {owner : Owner} {set : SelectionSet ν}
    (gains : policy.Gains owner set) :
    SelectionSet.responseKeys (SelectionSet.inject policy owner set) =
      SelectionSet.responseKeys set ++ [typenameField] := by
  rw [SelectionSet.inject, SelectionSet.responseKeys_append, SelectionSet.responseKeys_injectEach,
    TypenamePolicy.gained, if_pos gains]
  rfl

theorem SelectionSet.responseKeys_inject_of_not_gains {owner : Owner} {set : SelectionSet ν}
    (not_gains : ¬ policy.Gains owner set) :
    SelectionSet.responseKeys (SelectionSet.inject policy owner set) = SelectionSet.responseKeys set := by
  rw [SelectionSet.inject, SelectionSet.responseKeys_append, SelectionSet.responseKeys_injectEach,
    TypenamePolicy.gained, if_neg not_gains]
  exact List.append_nil _

theorem SelectionSet.repetitions_lt_inject_iff (owner : Owner) (set : SelectionSet ν) :
    repetitions (SelectionSet.responseKeys set) <
        repetitions (SelectionSet.responseKeys (SelectionSet.inject policy owner set)) ↔
      policy.Gains owner set ∧ set.AliasesTypename := by
  by_cases gains : policy.Gains owner set
  · rw [SelectionSet.responseKeys_inject_of_gains policy gains, repetitions_concat,
      ← policy.mem_responseKeys_of_gains gains]
    by_cases mem : typenameField ∈ SelectionSet.responseKeys set
    · simp [gains, mem]
    · simp [mem]
  · rw [SelectionSet.responseKeys_inject_of_not_gains policy gains]
    simp [gains]

/-- Where no repetition is added, keys that are distinct stay distinct. -/
theorem SelectionSet.nodup_responseKeys_inject {owner : Owner} {set : SelectionSet ν}
    (other : ¬ (policy.Gains owner set ∧ set.AliasesTypename)) (distinct : (SelectionSet.responseKeys set).Nodup) :
    (SelectionSet.responseKeys (SelectionSet.inject policy owner set)).Nodup := by
  have bound := mt (SelectionSet.repetitions_lt_inject_iff policy owner set).1 other
  rw [← repetitions_eq_zero_iff] at distinct ⊢
  omega

/-! ### The sets afterwards -/

theorem Selection.owned?_inject {s : Selection ν} {below : Owner × SelectionSet ν}
    (h : (s.inject policy).owned? = some below) :
    ∃ set, s.owned? = some (below.1, set) ∧ below.2 = SelectionSet.inject policy below.1 set := by
  cases owned : s.owned? with
  | none =>
    rw [Selection.inject_of_not_owned policy owned, owned] at h
    cases h
  | some found =>
    rw [Selection.inject_of_owned policy owned, Selection.owned?_withSet owned] at h
    cases h
    exact ⟨found.2, rfl, rfl⟩

/-- A set that is found afterwards was there before, or is that of a field that was added. -/
theorem SelectionSet.at?_of_inject {owner : Owner} {set : SelectionSet ν} {path : List Segment}
    {found : Owner × SelectionSet ν}
    (h : SelectionSet.at? owner (SelectionSet.inject policy owner set) path = some found) :
    (∃ original, SelectionSet.at? owner set path = some (found.1, original)) ∨ found.2 = [] := by
  -- by recursion on the path; it leads through a selection of the set or through what the set has gained
  obtain ⟨rfl, rfl⟩ | ⟨i, rest, s, below, rfl, at_i, owned, at_rest⟩ := SelectionSet.at?_cases h
  · exact .inl ⟨set, rfl⟩
  · rw [SelectionSet.inject, SelectionSet.injectEach_eq_map] at at_i
    by_cases bound : i < set.length
    · rw [List.getElem?_append_left (by simpa using bound), List.getElem?_map] at at_i
      obtain ⟨before, before_at, rfl⟩ := Option.map_eq_some_iff.1 at_i
      obtain ⟨set', owned', below_eq⟩ := Selection.owned?_inject policy owned
      rw [below_eq] at at_rest
      refine (SelectionSet.at?_of_inject at_rest).imp_left ?_
      rintro ⟨original, rest_before⟩
      exact ⟨original, SelectionSet.at?_index.2 ⟨before, _, before_at, owned', rest_before⟩⟩
    · right
      rw [List.getElem?_append_right (by simpa using bound)] at at_i
      have added : s = .field (.leaf typenameField) := by
        have mem := List.mem_of_getElem? at_i
        unfold TypenamePolicy.gained at mem
        split at mem
        · exact List.mem_singleton.1 mem
        · cases mem
      subst added
      cases owned
      obtain ⟨-, rfl⟩ | ⟨j, _, _, _, _, at_j, -, -⟩ := SelectionSet.at?_cases at_rest
      · rfl
      · cases at_j

theorem Document.setAt?_of_inject {d : Document ν} {path : List Segment} {found : Owner × SelectionSet ν}
    (h : (d.inject policy).setAt? path = some found) :
    (∃ original, d.setAt? path = some (found.1, original)) ∨ found.2 = [] := by
  obtain ⟨i, rest, x, rfl, at_i, at_rest⟩ := Document.setAt?_cases h
  rw [Document.inject, List.getElem?_map] at at_i
  obtain ⟨before, before_at, rfl⟩ := Option.map_eq_some_iff.1 at_i
  rw [Definition.inject_eq_withSet, Definition.owner_withSet, Definition.selectionSet_withSet] at at_rest
  refine (SelectionSet.at?_of_inject policy at_rest).imp_left ?_
  rintro ⟨original, rest_before⟩
  refine ⟨original, ?_⟩
  rw [Document.setAt?, before_at, Option.bind_some]
  exact rest_before

theorem TypenamePolicy.gained_eq (owner : Owner) (set : SelectionSet ν) :
    (¬ policy.Gains owner set ∧ policy.gained owner set = []) ∨
      (policy.Gains owner set ∧ policy.gained owner set = [.field (.leaf typenameField)]) := by
  unfold TypenamePolicy.gained
  by_cases gains : policy.Gains owner set
  · exact .inr ⟨gains, if_pos gains⟩
  · exact .inl ⟨gains, if_neg gains⟩

/-- Adding `__typename` keeps the response keys of each set and adds at most the key `__typename` at their end.  The set
has more repetitions among its keys afterwards exactly if the field was added and a field of another name in the set
itself has the alias `__typename`.  In every other set keys that are distinct stay distinct, and there are no further
sets afterwards than the empty ones of the fields that were added. -/
theorem Document.addTypename_responseKeys (d : Document ν) :
    ∃ out : Document ν, (∀ before, (d.addTypename policy before).1 = .ok out) ∧
      (∀ path owner (set : SelectionSet ν), d.setAt? path = some (owner, set) →
        ∃ changed gained : SelectionSet ν, out.setAt? path = some (owner, changed ++ gained) ∧
          changed.length = set.length ∧
          (gained = [] ∧ SelectionSet.responseKeys (changed ++ gained) = SelectionSet.responseKeys set ∨
            gained = [.field (.leaf typenameField)] ∧
              SelectionSet.responseKeys (changed ++ gained) = SelectionSet.responseKeys set ++ [typenameField]) ∧
          (repetitions (SelectionSet.responseKeys set) < repetitions (SelectionSet.responseKeys (changed ++ gained)) ↔
            gained ≠ [] ∧ set.AliasesTypename) ∧
          (¬ (gained ≠ [] ∧ set.AliasesTypename) → (SelectionSet.responseKeys set).Nodup →
            (SelectionSet.responseKeys (changed ++ gained)).Nodup)) ∧
      ∀ path owner (set : SelectionSet ν), out.setAt? path = some (owner, set) →
        (∃ original, d.setAt? path = some (owner, original)) ∨ set = [] := by
  refine ⟨d.inject policy, fun before => by rw [d.yields_addTypename policy before], ?_, ?_⟩
  · intro path owner set found
    have gains : policy.gained owner set ≠ [] ↔ policy.Gains owner set := by
      obtain ⟨not_gains, eq⟩ | ⟨gains, eq⟩ := policy.gained_eq owner set
      · simp [eq, not_gains]
      · simp [eq, gains]
    refine ⟨SelectionSet.injectEach policy set, policy.gained owner set, Document.setAt?_inject policy found,
      ?_, ?_, ?_, ?_⟩
    · rw [SelectionSet.injectEach_eq_map, List.length_map]
    · obtain ⟨not_gains, eq⟩ | ⟨gains, eq⟩ := policy.gained_eq owner set
      · exact .inl ⟨eq, SelectionSet.responseKeys_inject_of_not_gains policy not_gains⟩
      · exact .inr ⟨eq, SelectionSet.responseKeys_inject_of_gains policy gains⟩
    · rw [gains]
      exact SelectionSet.repetitions_lt_inject_iff policy owner set
    · rw [gains]
      exact SelectionSet.nodup_responseKeys_inject policy
  · intro path owner set found
    exact Document.setAt?_of_inject policy found

end

/-- The selections `__typename: kind` and `id`. -/
def SelectionSet.misnamed : SelectionSet Numeral :=
  [.field ⟨some "__typename", "kind", [], [], []⟩, .field (.leaf "id")]

/-- The query `{ user { … } }` with these selections. -/
def Document.userWith (set : SelectionSet Numeral) : Document Numeral :=
  ⟨[.operation (.shorthand [.field ⟨none, "user", [], [], set⟩])]⟩

/-- The set of the user gains the field although the key is taken.  The set of the query gains nothing, and its keys
stay distinct. -/
theorem Document.addTypename_responseKeys_misnamed :
    (Document.userWith .misnamed).setAt? [.index 0, .selectionSet, .index 0, .selectionSet] =
        some (.field, .misnamed) ∧
      ∃ (out : Document Numeral) (user root : SelectionSet Numeral),
        ((Document.userWith .misnamed).addTypename .exceptRoot []).1 = .ok out ∧
        out.setAt? [.index 0, .selectionSet, .index 0, .selectionSet] = some (.field, user) ∧
        SelectionSet.responseKeys user = ["__typename", "id", "__typename"] ∧
        repetitions (SelectionSet.responseKeys .misnamed) < repetitions (SelectionSet.responseKeys user) ∧
        out.setAt? [.index 0, .selectionSet] = some (.operation, root) ∧ (SelectionSet.responseKeys root).Nodup := by
  have userFound : (Document.userWith .misnamed).setAt? [.index 0, .selectionSet, .index 0, .selectionSet] =
      some (.field, .misnamed) := rfl
  have rootFound : (Document.userWith .misnamed).setAt? [.index 0, .selectionSet] =
      some (.operation, [.field ⟨none, "user", [], [], SelectionSet.misnamed⟩]) := rfl
  obtain ⟨out, run, sets, -⟩ := Document.addTypename_responseKeys .exceptRoot (Document.userWith .misnamed)
  obtain ⟨changed, gained, foundUser, -, keys, more, -⟩ := sets _ _ _ userFound
  obtain ⟨changedRoot, gainedRoot, foundRoot, -, -, -, distinct⟩ := sets _ _ _ rootFound
  have out_eq : out = Document.userWith (SelectionSet.misnamed ++ [.field (.leaf typenameField)]) := by
    have ok := run []
    cases ok
    rfl
  have user : changed ++ gained = SelectionSet.misnamed ++ [.field (.leaf typenameField)] := by
    rw [out_eq] at foundUser
    exact (congrArg Prod.snd (Option.some.inj foundUser)).symm
  have userKeys : SelectionSet.responseKeys (changed ++ gained) = ["__typename", "id", "__typename"] := by
    rw [user]
    rfl
  have added : gained ≠ [] := by
    rintro rfl
    obtain ⟨-, same⟩ | ⟨gained_eq, -⟩ := keys
    · rw [userKeys] at same
      exact absurd (congrArg List.length same) (by decide)
    · cases gained_eq
  have aliased : SelectionSet.AliasesTypename .misnamed := ⟨_, List.mem_cons_self, by decide, rfl⟩
  have other : ¬ (gainedRoot ≠ [] ∧
      SelectionSet.AliasesTypename [.field ⟨none, "user", [], [], SelectionSet.misnamed⟩]) := by
    rintro ⟨-, f, mem, -, aliased⟩
    cases List.mem_singleton.1 mem
    cases aliased
  exact ⟨userFound, out, _, _, run [], foundUser, userKeys, more.2 ⟨added, aliased⟩, foundRoot,
    distinct other (List.nodup_singleton _)⟩

end PersistedQuery
