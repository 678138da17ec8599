import PersistedQuery.Document.Parsed
import PersistedQuery.Proofs.Relation

/-!
# Shorthand queries

A query may be parsed as its selection set alone, which stands for the query without name, variables and directives.
The values of a parsed document and the relation of parsed documents are those of the definitions as they were parsed.
Writing each shorthand query in full keeps both (`ParsedDocument.values_expand`, `ParsedDocument.rel_expand_iff`).
-/

namespace PersistedQuery

/-! ### Values in the order of writing -/

def ParsedDefinition.values : ParsedDefinition → List (Value Number)
  | .shorthand set => SelectionSet.values set
  | .operation o => o.values
  | .fragment f => f.values

/-- The defaults of variables and the arguments in a parsed document. -/
def ParsedDocument.values (d : ParsedDocument) : List (Value Number) := d.definitions.flatMap ParsedDefinition.values

theorem ParsedDefinition.values_expand (x : ParsedDefinition) : x.expand.values = x.values := by
  cases x <;> rfl

theorem ParsedDocument.values_expand (d : ParsedDocument) : d.expand.values = d.values := by
  rw [Document.values, ParsedDocument.expand, List.flatMap_map, ParsedDocument.values]
  exact List.flatMap_congr fun x _ => x.values_expand

/-! ### Related definitions -/

section

variable (R : Value Number → Value Number → Prop)

/-- Definitions of the same kind with the same words and related values, where a selection set alone is a query without
name, variables and directives. -/
inductive ParsedDefinition.Rel : ParsedDefinition → ParsedDefinition → Prop
  | shorthand {set set' : SelectionSet Number} (selections : SelectionSet.Rel R set set') :
    ParsedDefinition.Rel (.shorthand set) (.shorthand set')
  | shorthand_full {set set' : SelectionSet Number} (selections : SelectionSet.Rel R set set') :
    ParsedDefinition.Rel (.shorthand set) (.operation ⟨.query, none, [], [], set'⟩)
  | full_shorthand {set set' : SelectionSet Number} (selections : SelectionSet.Rel R set set') :
    ParsedDefinition.Rel (.operation ⟨.query, none, [], [], set⟩) (.shorthand set')
  | operation {o p : Operation Number} (related : o.Rel R p) : ParsedDefinition.Rel (.operation o) (.operation p)
  | fragment {f g : Fragment Number} (related : f.Rel R g) : ParsedDefinition.Rel (.fragment f) (.fragment g)

def ParsedDocument.Rel (d e : ParsedDocument) : Prop :=
  List.Forall₂ (ParsedDefinition.Rel R) d.definitions e.definitions

variable {R} {set set' : SelectionSet Number}

theorem Operation.rel_shorthand_iff :
    (Operation.shorthand set).Rel R (.shorthand set') ↔ SelectionSet.Rel R set set' := by
  constructor
  · rintro ⟨-, -, -, -, selections⟩
    exact selections
  · intro selections
    exact ⟨rfl, rfl, .nil, .nil, selections⟩

/-- An operation that is related to a shorthand query is one itself. -/
private theorem Operation.eq_shorthand_of_rel_left {o : Operation Number} (h : (Operation.shorthand set).Rel R o) :
    o = .shorthand o.selectionSet := by
  obtain ⟨kind, name, variableDefinitions, directives, selectionSet⟩ := o
  obtain ⟨rfl, rfl, ⟨⟩, ⟨⟩, -⟩ := h
  rfl

private theorem Operation.eq_shorthand_of_rel_right {o : Operation Number} (h : o.Rel R (.shorthand set)) :
    o = .shorthand o.selectionSet := by
  obtain ⟨kind, name, variableDefinitions, directives, selectionSet⟩ := o
  obtain ⟨rfl, rfl, ⟨⟩, ⟨⟩, -⟩ := h
  rfl

theorem ParsedDefinition.rel_expand_iff (x y : ParsedDefinition) : x.expand.Rel R y.expand ↔ x.Rel R y := by
  constructor
  · intro h
    cases x with
    | shorthand set =>
      cases y with
      | shorthand set' => exact .shorthand (Operation.rel_shorthand_iff.1 h)
      | operation o =>
        have full := Operation.eq_shorthand_of_rel_left h
        rw [full] at h ⊢
        exact .shorthand_full (Operation.rel_shorthand_iff.1 h)
      | fragment f => exact h.elim
    | operation o =>
      cases y with
      | shorthand set' =>
        have full := Operation.eq_shorthand_of_rel_right h
        rw [full] at h ⊢
        exact .full_shorthand (Operation.rel_shorthand_iff.1 h)
      | operation p => exact .operation h
      | fragment f => exact h.elim
    | fragment f =>
      cases y with
      | shorthand set' => exact h.elim
      | operation p => exact h.elim
      | fragment g => exact .fragment h
  · intro h
    cases h with
    | shorthand selections => exact Operation.rel_shorthand_iff.2 selections
    | shorthand_full selections => exact Operation.rel_shorthand_iff.2 selections
    | full_shorthand selections => exact Operation.rel_shorthand_iff.2 selections
    | operation related => exact related
    | fragment related => exact related

theorem ParsedDocument.rel_expand_iff (d e : ParsedDocument) : d.expand.Rel R e.expand ↔ d.Rel R e := by
  unfold Document.Rel ParsedDocument.expand ParsedDocument.Rel
  simp only [List.forall₂_map_left_iff, List.forall₂_map_right_iff, ParsedDefinition.rel_expand_iff]

end

end PersistedQuery
