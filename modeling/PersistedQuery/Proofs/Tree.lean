import PersistedQuery.Document.Basic
import PersistedQuery.Json.Basic

/-!
# Induction on trees

Values, selections and JSON values are trees whose children stand in lists.  `Value.induction`,
`Selection.induction` and `Json.induction` give the hypothesis for every child of a node, so that a proof about a tree
has one case for each kind of node.
-/

namespace PersistedQuery

variable {ν : Type}

private theorem Binding.sizeOf_value_lt {α : Type} [SizeOf α] {bs : List (Binding α)} {b : Binding α} (h : b ∈ bs) :
    sizeOf b.value < sizeOf bs := by
  obtain ⟨name, value⟩ := b
  have hb := List.sizeOf_lt_of_mem h
  simp only [Binding.mk.sizeOf_spec] at hb ⊢
  omega

/-- A property of values holds of all of them if it passes from the parts of a list or an object to the whole. -/
@[elab_as_elim]
theorem Value.induction {motive : Value ν → Prop} (var : ∀ name, motive (.variable name))
    (string : ∀ content, motive (.string content)) (number : ∀ n, motive (.number n))
    (boolean : ∀ b, motive (.boolean b)) (enum : ∀ name, motive (.enum name))
    (list : ∀ items, (∀ v ∈ items, motive v) → motive (.list items))
    (object : ∀ fields, (∀ b ∈ fields, motive b.value) → motive (.object fields)) (null : motive .null) :
    ∀ v : Value ν, motive v
  | .variable name => var name
  | .string content => string content
  | .number n => number n
  | .boolean b => boolean b
  | .enum name => enum name
  | .list items => list items fun v _ => Value.induction var string number boolean enum list object null v
  | .object fields =>
    object fields fun b _ => Value.induction var string number boolean enum list object null b.value
  | .null => null
decreasing_by
  · rename_i h
    have := List.sizeOf_lt_of_mem h
    simp only [Value.list.sizeOf_spec]
    omega
  · rename_i h
    have := Binding.sizeOf_value_lt h
    simp only [Value.object.sizeOf_spec]
    omega

private theorem Field.sizeOf_selection_lt {f : Field ν (Selection ν)} {s : Selection ν} (h : s ∈ f.selectionSet) :
    sizeOf s < sizeOf f := by
  obtain ⟨aliasName, name, arguments, directives, set⟩ := f
  have hs : sizeOf s < sizeOf set := List.sizeOf_lt_of_mem h
  simp only [Field.mk.sizeOf_spec]
  omega

private theorem InlineFragment.sizeOf_selection_lt {f : InlineFragment ν (Selection ν)} {s : Selection ν}
    (h : s ∈ f.selectionSet) : sizeOf s < sizeOf f := by
  obtain ⟨typeCondition, directives, set⟩ := f
  have hs : sizeOf s < sizeOf set := List.sizeOf_lt_of_mem h
  simp only [InlineFragment.mk.sizeOf_spec]
  omega

/-- A property of selections holds of all of them if it passes from the selections of a set to the owner of the
set. -/
@[elab_as_elim]
theorem Selection.induction {motive : Selection ν → Prop}
    (field : ∀ f : Field ν (Selection ν), (∀ s ∈ f.selectionSet, motive s) → motive (.field f))
    (spread : ∀ s, motive (.spread s))
    (inlineFragment : ∀ f : InlineFragment ν (Selection ν),
      (∀ s ∈ f.selectionSet, motive s) → motive (.inlineFragment f)) :
    ∀ s : Selection ν, motive s
  | .field f => field f fun s _ => Selection.induction field spread inlineFragment s
  | .spread s => spread s
  | .inlineFragment f => inlineFragment f fun s _ => Selection.induction field spread inlineFragment s
decreasing_by
  · rename_i h
    have := Field.sizeOf_selection_lt h
    simp only [Selection.field.sizeOf_spec]
    omega
  · rename_i h
    have := InlineFragment.sizeOf_selection_lt h
    simp only [Selection.inlineFragment.sizeOf_spec]
    omega

/-- A property of JSON values holds of all of them if it passes from the parts of an array or an object to the whole. -/
@[elab_as_elim]
theorem Json.induction {motive : Json → Prop} (null : motive .null) (bool : ∀ b, motive (.bool b))
    (int : ∀ n, motive (.int n)) (float : ∀ x, motive (.float x)) (string : ∀ s, motive (.string s))
    (array : ∀ items, (∀ v ∈ items, motive v) → motive (.array items))
    (object : ∀ members, (∀ b ∈ members, motive b.value) → motive (.object members)) : ∀ v : Json, motive v
  | .null => null
  | .bool b => bool b
  | .int n => int n
  | .float x => float x
  | .string s => string s
  | .array items => array items fun v _ => Json.induction null bool int float string array object v
  | .object members => object members fun b _ => Json.induction null bool int float string array object b.value
decreasing_by
  · rename_i h
    have := List.sizeOf_lt_of_mem h
    simp only [Json.array.sizeOf_spec]
    omega
  · rename_i h
    have := Binding.sizeOf_value_lt h
    simp only [Json.object.sizeOf_spec]
    omega

end PersistedQuery
