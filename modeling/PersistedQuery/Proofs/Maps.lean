import PersistedQuery.Proofs.Relation

/-!
# Bindings as maps

Two lists of bindings stand for the same map if they give each name the same value, which is the last one that the name
has.  The form in the order of names tells just that.

* `Binding.forall₂_byName_iff`: the ordered forms are related one by one exactly if each name has related values.
* `Binding.byName_eq_iff`: they are equal exactly if each name has the same value.
* `Binding.byName_swap`: they do not depend on the order in which different names are written.
-/

namespace PersistedQuery.Binding

variable {α β : Type} {R : α → β → Prop}

private theorem get?_cons (b : Binding α) (bs : List (Binding α)) (name : String) :
    get? (b :: bs) name = if b.name = name then some b.value else get? bs name := by
  by_cases same : b.name = name <;> simp [get?, same]

theorem get?_map (f : α → β) (bs : List (Binding α)) (name : String) :
    get? (bs.map (Binding.map f)) name = (get? bs name).map f := by
  induction bs with
  | nil => rfl
  | cons b bs ih =>
    rw [List.map_cons, get?_cons, get?_cons, ih]
    by_cases same : b.name = name <;> simp [Binding.map, same]

theorem getLast?_map (f : α → β) (bs : List (Binding α)) (name : String) :
    getLast? (bs.map (Binding.map f)) name = (getLast? bs name).map f := by
  rw [getLast?, ← List.map_reverse, get?_map]
  rfl

theorem getLast?_append (bs cs : List (Binding α)) (name : String) :
    getLast? (bs ++ cs) name = (getLast? cs name).or (getLast? bs name) := by
  simp [getLast?, get?, List.find?_append, Option.map_or]

theorem mem_of_getLast? {bs : List (Binding α)} {name : String} {value : α} (h : getLast? bs name = some value) :
    ⟨name, value⟩ ∈ bs := by
  obtain ⟨b, found, rfl⟩ := Option.map_eq_some_iff.1 h
  have same : b.name = name := by simpa using List.find?_some found
  rw [← same]
  exact List.mem_reverse.1 (List.mem_of_find?_eq_some found)

/-! ### Ordered lists -/

theorem Ordered.nodup {bs : List (Binding α)} (h : Ordered bs) : (bs.map (·.name)).Nodup := by
  rw [List.nodup_iff_pairwise_ne, List.pairwise_map]
  exact h.imp fun lt => String.ne_of_lt lt

private theorem get?_eq_none_of_lt {bs : List (Binding α)} {name : String} (h : ∀ b ∈ bs, name < b.name) :
    get? bs name = none := by
  rw [get?_eq_none_iff]
  intro mem
  obtain ⟨b, hb, rfl⟩ := List.mem_map.1 mem
  exact String.lt_irrefl _ (h b hb)

private theorem get?_cons_eq_none {b : Binding α} {bs : List (Binding α)} (h : Ordered (b :: bs)) {name : String}
    (lt : name < b.name) : get? (b :: bs) name = none := by
  apply get?_eq_none_of_lt
  rw [List.forall_mem_cons]
  refine ⟨lt, fun c mem => ?_⟩
  exact String.lt_trans lt ((List.pairwise_cons.1 h).1 c mem)

theorem rel_get?_of_forall₂ {bs : List (Binding α)} {cs : List (Binding β)}
    (h : List.Forall₂ (Binding.Rel R) bs cs) (name : String) : Option.Rel R (get? bs name) (get? cs name) := by
  induction h with
  | nil => exact .none
  | cons related _ ih =>
    rw [get?_cons, get?_cons, related.1]
    split
    · exact .some related.2
    · exact ih

/-- In the order of names two lists that give related values to each name are related one by one. -/
theorem forall₂_of_rel_get? {bs : List (Binding α)} {cs : List (Binding β)} (hb : Ordered bs) (hc : Ordered cs)
    (h : ∀ name, Option.Rel R (get? bs name) (get? cs name)) : List.Forall₂ (Binding.Rel R) bs cs := by
  induction bs generalizing cs with
  | nil =>
    cases cs with
    | nil => exact .nil
    | cons c cs =>
      have absent := h c.name
      rw [get?_cons, if_pos rfl] at absent
      cases absent
  | cons b bs ih =>
    cases cs with
    | nil =>
      have absent := h b.name
      rw [get?_cons, if_pos rfl] at absent
      cases absent
    | cons c cs =>
      have firstB := List.pairwise_cons.1 hb
      have firstC := List.pairwise_cons.1 hc
      -- the lesser one of two first names would have no value in the other list
      have same : b.name = c.name := by
        by_contra ne
        by_cases lt : b.name < c.name
        · have present := h b.name
          rw [get?_cons, if_pos rfl, get?_cons_eq_none hc lt] at present
          cases present
        · have gt : c.name < b.name := name_lt_of_not_lt lt (Ne.symm ne)
          have present := h c.name
          rw [get?_cons_eq_none hb gt, get?_cons, if_pos rfl] at present
          cases present
      refine .cons ⟨same, ?_⟩ (ih firstB.2 firstC.2 fun name => ?_)
      · have value := h b.name
        rw [get?_cons, get?_cons, if_pos rfl, if_pos same.symm] at value
        cases value
        assumption
      · by_cases first : b.name = name
        · subst first
          rw [get?_eq_none_of_lt firstB.1, get?_eq_none_of_lt (same ▸ firstC.1)]
          exact .none
        · have value := h name
          rwa [get?_cons, get?_cons, if_neg first, if_neg (same ▸ first)] at value

/-! ### Ordered forms -/

/-- What is related one by one to the ordered form of a list is ordered, and has related values under the names of the
list and under no others. -/
theorem forall₂_byName_left_iff (bs : List (Binding α)) (cs : List (Binding β)) :
    List.Forall₂ (Binding.Rel R) (byName bs) cs ↔
      Ordered cs ∧ ∀ name, Option.Rel R (getLast? bs name) (get? cs name) := by
  constructor
  · intro related
    constructor
    · have names : (byName bs).map (·.name) = cs.map (·.name) := by
        rw [← List.forall₂_eq_eq_eq, List.forall₂_map_left_iff, List.forall₂_map_right_iff]
        exact related.imp fun _ _ => And.left
      have ordered := ordered_byName bs
      rw [Ordered, ← List.pairwise_map (R := (· < ·))] at ordered ⊢
      exact names ▸ ordered
    · intro name
      have values := rel_get?_of_forall₂ related name
      rwa [get?_byName] at values
  · rintro ⟨ordered, related⟩
    apply forall₂_of_rel_get? (ordered_byName bs) ordered
    intro name
    rw [get?_byName]
    exact related name

/-- The fields in the order of names are related one by one exactly if each name has related values. -/
theorem forall₂_byName_iff (bs : List (Binding α)) (cs : List (Binding β)) :
    List.Forall₂ (Binding.Rel R) (byName bs) (byName cs) ↔
      ∀ name, Option.Rel R (getLast? bs name) (getLast? cs name) := by
  rw [forall₂_byName_left_iff]
  simp only [get?_byName, ordered_byName, true_and]

theorem mem_byName_iff (bs : List (Binding α)) (b : Binding α) :
    b ∈ byName bs ↔ getLast? bs b.name = some b.value := by
  rw [← get?_byName, get?_eq_some_iff_mem (ordered_byName bs).nodup]

theorem byName_eq_iff (bs cs : List (Binding α)) :
    byName bs = byName cs ↔ ∀ name, getLast? bs name = getLast? cs name := by
  constructor
  · intro same name
    rw [← get?_byName, same, get?_byName]
  · intro same
    have related : List.Forall₂ (Binding.Rel Eq) (byName bs) (byName cs) := by
      rw [forall₂_byName_iff]
      intro name
      rw [same name]
      cases getLast? cs name with
      | none => exact .none
      | some value => exact .some rfl
    rw [← List.forall₂_eq_eq_eq]
    refine related.imp fun b c h => ?_
    cases b
    cases c
    rw [Binding.mk.injEq]
    exact h

/-- Neighbours with different names may change places. -/
theorem byName_swap (before : List (Binding α)) {b c : Binding α} (distinct : b.name ≠ c.name)
    (after : List (Binding α)) : byName (before ++ b :: c :: after) = byName (before ++ c :: b :: after) := by
  rw [byName_eq_iff]
  intro name
  have last : getLast? ([b, c] ++ after) name = getLast? ([c, b] ++ after) name := by
    rw [getLast?_append, getLast?_append]
    change (getLast? after name).or (get? [c, b] name) = (getLast? after name).or (get? [b, c] name)
    rw [get?_cons, get?_cons, get?_cons b, get?_cons c]
    by_cases first : b.name = name
    · rw [if_pos first, if_pos first, if_neg fun second => distinct (first.trans second.symm)]
    · rw [if_neg first, if_neg first]
  rw [getLast?_append, getLast?_append before]
  exact congrArg (Option.or · _) last

end PersistedQuery.Binding
