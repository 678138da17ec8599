import PersistedQuery.Proofs.Recording

/-!
# Adding `__typename` twice

A set that has gained the field has a field of that name, so it gains none again, whatever the second policy is.  A set
gains the field from one of two policies exactly if it gains it from their join (`TypenamePolicy.gains_join`), and so a
document gains from both, one after the other, what it gains from the join (`Document.inject_inject`).
-/

namespace PersistedQuery

variable {ν : Type}

/-- The policy that admits the sets that one of two policies admits. -/
def TypenamePolicy.join (p q : TypenamePolicy) : TypenamePolicy := if p = .all ∨ q = .all then .all else .exceptRoot

namespace TypenamePolicy

@[simp]
theorem join_self (p : TypenamePolicy) : p.join p = p := by
  cases p <;> rfl

theorem join_eq_all {p q : TypenamePolicy} (h : p = .all ∨ q = .all) : p.join q = .all := if_pos h

theorem gains_join (p q : TypenamePolicy) (owner : Owner) (set : SelectionSet ν) :
    (p.join q).Gains owner set ↔ p.Gains owner set ∨ q.Gains owner set := by
  have join : p.join q = .exceptRoot ↔ p = .exceptRoot ∧ q = .exceptRoot := by
    cases p <;> cases q <;> decide
  unfold Gains
  rw [join]
  constructor
  · rintro ⟨nonempty, names, admitted⟩
    by_cases hp : p = .exceptRoot ∧ owner = .operation
    · exact .inr ⟨nonempty, names, fun hq => admitted ⟨⟨hp.1, hq.1⟩, hq.2⟩⟩
    · exact .inl ⟨nonempty, names, hp⟩
  · rintro (⟨nonempty, names, admitted⟩ | ⟨nonempty, names, admitted⟩)
    · exact ⟨nonempty, names, fun h => admitted ⟨h.1.1, h.2⟩⟩
    · exact ⟨nonempty, names, fun h => admitted ⟨h.1.2, h.2⟩⟩

/-- The set has the field then, so it gains none. -/
private theorem not_gains_append (q : TypenamePolicy) (owner owner' : Owner) (p : TypenamePolicy)
    (set set' : SelectionSet ν) (h : p.Gains owner set) : ¬ q.Gains owner' (set' ++ p.gained owner set) := by
  intro gains
  have mem : .field (.leaf typenameField) ∈ set' ++ p.gained owner set := by
    rw [gained, if_pos h]
    simp
  exact gains.2.1 _ mem rfl

theorem gained_gained (p q : TypenamePolicy) (owner : Owner) (set : SelectionSet ν) :
    p.gained owner set ++ q.gained owner (SelectionSet.inject p owner set) = (p.join q).gained owner set := by
  unfold SelectionSet.inject
  -- what the first policy adds keeps the second one from adding; where it adds nothing, the second decides alone
  by_cases hp : p.Gains owner set
  · have second : q.gained owner (SelectionSet.injectEach p set ++ p.gained owner set) = [] :=
      if_neg (q.not_gains_append owner owner p set (SelectionSet.injectEach p set) hp)
    have first : p.gained owner set = [.field (.leaf typenameField)] := if_pos hp
    have both : (p.join q).gained owner set = [.field (.leaf typenameField)] :=
      if_pos ((gains_join p q owner set).2 (.inl hp))
    rw [second, first, both, List.append_nil]
  · have first : p.gained owner set = [] := if_neg hp
    rw [first, List.append_nil, List.nil_append]
    unfold gained
    simp only [gains_injectEach, gains_join, hp, false_or]

end TypenamePolicy

/-! ### Selections, definitions and documents -/

/-- The field itself gains nothing, having no selections. -/
theorem Selection.inject_typename (policy : TypenamePolicy) :
    (Selection.field (.leaf typenameField) : Selection ν).inject policy = .field (.leaf typenameField) := by
  simp [Selection.inject_field, SelectionSet.inject, SelectionSet.injectEach, TypenamePolicy.gained,
    TypenamePolicy.Gains, Field.leaf]

private theorem injectEach_gained (p q : TypenamePolicy) (owner : Owner) (set : SelectionSet ν) :
    SelectionSet.injectEach q (p.gained owner set) = p.gained owner set := by
  rw [SelectionSet.injectEach_eq_map, TypenamePolicy.gained]
  split
  · rw [List.map_singleton, Selection.inject_typename]
  · rfl

private theorem SelectionSet.inject_inject_of_forall (p q : TypenamePolicy) (owner : Owner) {set : SelectionSet ν}
    (h : ∀ s ∈ set, (s.inject p).inject q = s.inject (p.join q)) :
    SelectionSet.inject q owner (SelectionSet.inject p owner set) = SelectionSet.inject (p.join q) owner set := by
  have each : SelectionSet.injectEach q (SelectionSet.injectEach p set) = SelectionSet.injectEach (p.join q) set := by
    simp only [SelectionSet.injectEach_eq_map, List.map_map]
    exact List.map_congr_left h
  calc SelectionSet.inject q owner (SelectionSet.inject p owner set)
      = SelectionSet.injectEach q (SelectionSet.injectEach p set) ++ SelectionSet.injectEach q (p.gained owner set) ++
          q.gained owner (SelectionSet.inject p owner set) := by
        simp only [SelectionSet.inject, SelectionSet.injectEach_eq_map, List.map_append]
    _ = SelectionSet.injectEach (p.join q) set ++ (p.join q).gained owner set := by
        rw [each, injectEach_gained, List.append_assoc, TypenamePolicy.gained_gained]
    _ = SelectionSet.inject (p.join q) owner set := rfl

theorem Selection.inject_inject (p q : TypenamePolicy) (s : Selection ν) :
    (s.inject p).inject q = s.inject (p.join q) := by
  induction s using Selection.induction with
  | field f ih =>
    rw [Selection.inject_field, Selection.inject_field, Selection.inject_field]
    rw [SelectionSet.inject_inject_of_forall p q .field ih]
  | spread s => rfl
  | inlineFragment f ih =>
    rw [Selection.inject_inlineFragment, Selection.inject_inlineFragment, Selection.inject_inlineFragment]
    rw [SelectionSet.inject_inject_of_forall p q .inlineFragment ih]

theorem SelectionSet.inject_inject (p q : TypenamePolicy) (owner : Owner) (set : SelectionSet ν) :
    SelectionSet.inject q owner (SelectionSet.inject p owner set) = SelectionSet.inject (p.join q) owner set :=
  SelectionSet.inject_inject_of_forall p q owner fun s _ => s.inject_inject p q

theorem Definition.inject_inject (p q : TypenamePolicy) (x : Definition ν) :
    (x.inject p).inject q = x.inject (p.join q) := by
  cases x with
  | operation o => simp only [Definition.inject, SelectionSet.inject_inject]
  | fragment f => simp only [Definition.inject, SelectionSet.inject_inject]

/-- A document gains from two policies, one after the other, what it gains from their join. -/
theorem Document.inject_inject (p q : TypenamePolicy) (d : Document ν) :
    (d.inject p).inject q = d.inject (p.join q) := by
  simp only [Document.inject, List.map_map, Document.mk.injEq]
  exact List.map_congr_left fun x _ => x.inject_inject p q

/-! ### Recording a document again -/

/-- Adding `__typename` leaves a recorded text as it is where the builder adds it anyway. -/
theorem Document.query?_inject (p : TypenamePolicy) (d : Document Numeral) :
    (d.inject p).query? p = d.query? p := by
  have selects : (∃ x ∈ (d.inject p).definitions, x.selectionSet ≠ []) ↔ ∃ x ∈ d.definitions, x.selectionSet ≠ [] := by
    constructor
    · rintro ⟨_, changed, selects⟩
      obtain ⟨x, mem, rfl⟩ := List.mem_map.1 changed
      exact ⟨x, mem, mt (Definition.inject_selectionSet_eq_nil_iff p x).2 selects⟩
    · rintro ⟨x, mem, selects⟩
      exact ⟨x.inject p, List.mem_map_of_mem mem, mt (Definition.inject_selectionSet_eq_nil_iff p x).1 selects⟩
  unfold Document.query?
  rw [Document.inject_inject, TypenamePolicy.join_self]
  simp only [selects]

/-- Adding `__typename` under one policy and then under another gives what their join gives at once.  So a second time
under the same policy changes nothing, the policy of all sets absorbs the other one on either side, and a builder
records and returns the same for a document with the fields of its policy as for the document without them. -/
theorem Document.addTypename_addTypename (p q : TypenamePolicy) (d : Document Numeral) :
    ∃ once twice : Document Numeral,
      (∀ before, (d.addTypename p before).1 = .ok once) ∧
      (∀ before, (once.addTypename q before).1 = .ok twice) ∧
      (∀ before, (d.addTypename (p.join q) before).1 = .ok twice) ∧
      (p = q → twice = once) ∧
      (p = .all ∨ q = .all → ∀ before, (d.addTypename .all before).1 = .ok twice) ∧
      ∀ m : Manifest, ∃ added, ∀ before,
        (Builder.addDocument ⟨p, m⟩ d before).1 = .ok added ∧
          (Builder.addDocument ⟨p, m⟩ once before).1 = .ok added := by
  refine ⟨d.inject p, d.inject (p.join q), ?_, ?_, ?_, ?_, ?_, ?_⟩
  · intro before
    rw [d.yields_addTypename p before]
  · intro before
    rw [(d.inject p).yields_addTypename q before, d.inject_inject]
  · intro before
    rw [d.yields_addTypename _ before]
  · rintro rfl
    rw [TypenamePolicy.join_self]
  · intro h before
    rw [d.yields_addTypename .all before, TypenamePolicy.join_eq_all h]
  · intro m
    refine ⟨((d.query? p).map Entry.ofQuery, Builder.record ⟨p, m⟩ (d.query? p)), fun before => ⟨?_, ?_⟩⟩
    · rw [Builder.yields_addDocument ⟨p, m⟩ d before]
    · rw [Builder.yields_addDocument ⟨p, m⟩ (d.inject p) before, d.query?_inject]

end PersistedQuery
