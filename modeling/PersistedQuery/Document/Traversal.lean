import PersistedQuery.Document.Basic

/-!
# Traversals

`Value.mapM` replaces the numbers of a value, and the `mapM` of the other nodes replaces their values, which are the
arguments and the defaults of variables.  All of them run their effects in the order in which the document is written.

* `Value.map_id`, `Directive.map_id`, `VariableDefinition.map_id`: replacing each part by itself gives the node back.
* `Value.copy_eq_id`, `Binding.copy_eq_id`, `Directive.copy_eq_id`, `VariableDefinition.copy_eq_id`: so does a copy.
* `Field.copyWith_eq` and the like: a copy around another selection set changes nothing else.
-/

namespace PersistedQuery

variable {m : Type → Type} [Monad m] {ν μ : Type}

/-! ### Numbers of a value -/

mutual

def Value.mapM (f : ν → m μ) : Value ν → m (Value μ)
  | .variable name => pure (.variable name)
  | .string content => pure (.string content)
  | .number n => return .number (← f n)
  | .boolean b => pure (.boolean b)
  | .enum name => pure (.enum name)
  | .list items => return .list (← Value.mapItemsM f items)
  | .object fields => return .object (← Value.mapFieldsM f fields)
  | .null => pure .null

def Value.mapItemsM (f : ν → m μ) : List (Value ν) → m (List (Value μ))
  | [] => pure []
  | v :: vs => return (← v.mapM f) :: (← Value.mapItemsM f vs)

def Value.mapFieldsM (f : ν → m μ) : List (Binding (Value ν)) → m (List (Binding (Value μ)))
  | [] => pure []
  | b :: bs => return ⟨b.name, ← b.value.mapM f⟩ :: (← Value.mapFieldsM f bs)

end

/-! ### Values of the other nodes -/

section

variable (f : Value ν → m (Value μ))

def Directive.mapM (d : Directive ν) : m (Directive μ) :=
  return ⟨d.name, ← d.arguments.mapM (Binding.mapM f)⟩

def VariableDefinition.mapM (v : VariableDefinition ν) : m (VariableDefinition μ) :=
  return ⟨v.name, v.type, ← v.defaultValue.mapM f, ← v.directives.mapM (Directive.mapM f)⟩

def FragmentSpread.mapM (s : FragmentSpread ν) : m (FragmentSpread μ) :=
  return ⟨s.name, ← s.directives.mapM (Directive.mapM f)⟩

mutual

def Selection.mapM : Selection ν → m (Selection μ)
  | .field x => do
    let arguments ← x.arguments.mapM (Binding.mapM f)
    let directives ← x.directives.mapM (Directive.mapM f)
    return .field ⟨x.aliasName, x.name, arguments, directives, ← SelectionSet.mapM x.selectionSet⟩
  | .spread s => return .spread (← s.mapM f)
  | .inlineFragment x => do
    let directives ← x.directives.mapM (Directive.mapM f)
    return .inlineFragment ⟨x.typeCondition, directives, ← SelectionSet.mapM x.selectionSet⟩

def SelectionSet.mapM : SelectionSet ν → m (SelectionSet μ)
  | [] => pure []
  | s :: set => return (← s.mapM) :: (← SelectionSet.mapM set)

end

def Operation.mapM (o : Operation ν) : m (Operation μ) := do
  let definitions ← o.variableDefinitions.mapM (VariableDefinition.mapM f)
  let directives ← o.directives.mapM (Directive.mapM f)
  return ⟨o.kind, o.name, definitions, directives, ← SelectionSet.mapM f o.selectionSet⟩

def Fragment.mapM (x : Fragment ν) : m (Fragment μ) := do
  let directives ← x.directives.mapM (Directive.mapM f)
  return ⟨x.name, x.typeCondition, directives, ← SelectionSet.mapM f x.selectionSet⟩

def Definition.mapM : Definition ν → m (Definition μ)
  | .operation o => return .operation (← o.mapM f)
  | .fragment x => return .fragment (← x.mapM f)

def Document.mapM (d : Document ν) : m (Document μ) := return ⟨← d.definitions.mapM (Definition.mapM f)⟩

end

/-! ### Without effects -/

def Value.map (f : ν → μ) (v : Value ν) : Value μ := Id.run (v.mapM (pure <| f ·))

def Directive.map (f : Value ν → Value μ) (d : Directive ν) : Directive μ := Id.run (d.mapM (pure <| f ·))

def VariableDefinition.map (f : Value ν → Value μ) (v : VariableDefinition ν) : VariableDefinition μ :=
  Id.run (v.mapM (pure <| f ·))

mutual

private theorem Value.mapM_pure (v : Value ν) : v.mapM (m := Id) (pure ·) = pure v := by
  match v with
  | .list items => simp [Value.mapM, Value.mapItemsM_pure items]
  | .object fields => simp [Value.mapM, Value.mapFieldsM_pure fields]
  | .variable _ | .string _ | .number _ | .boolean _ | .enum _ | .null => rfl

private theorem Value.mapItemsM_pure (vs : List (Value ν)) : Value.mapItemsM (m := Id) (pure ·) vs = pure vs := by
  match vs with
  | [] => rfl
  | v :: vs => simp [Value.mapItemsM, v.mapM_pure, Value.mapItemsM_pure vs]

private theorem Value.mapFieldsM_pure (bs : List (Binding (Value ν))) :
    Value.mapFieldsM (m := Id) (pure ·) bs = pure bs := by
  match bs with
  | [] => rfl
  | ⟨n, v⟩ :: bs => simp [Value.mapFieldsM, v.mapM_pure, Value.mapFieldsM_pure bs]

end

theorem Value.map_id (v : Value ν) : v.map id = v := v.mapM_pure

private theorem mapM_pure_self {α : Type} (l : List α) : l.mapM (m := Id) (pure ·) = pure l := by
  rw [List.mapM_pure, List.map_id']

private theorem Directive.mapM_pure (d : Directive ν) : d.mapM (m := Id) (pure ·) = pure d := by
  have arguments : Binding.mapM (m := Id) (α := Value ν) (pure ·) = (pure ·) := rfl
  simp [Directive.mapM, arguments, mapM_pure_self]

theorem Directive.map_id (d : Directive ν) : d.map id = d := d.mapM_pure

theorem VariableDefinition.map_id (v : VariableDefinition ν) : v.map id = v := by
  have directives : Directive.mapM (m := Id) (ν := ν) (pure ·) = (pure ·) := funext Directive.mapM_pure
  obtain ⟨name, type, _ | value, ds⟩ := v <;>
    simp [VariableDefinition.map, VariableDefinition.mapM, directives, mapM_pure_self]

/-! ### Copies -/

/-- The value, built anew. -/
def Value.copy (v : Value ν) : Value ν := v.map id

def Binding.copy (b : Binding (Value ν)) : Binding (Value ν) := b.map Value.copy

def Directive.copy (d : Directive ν) : Directive ν := d.map Value.copy

def VariableDefinition.copy (v : VariableDefinition ν) : VariableDefinition ν := v.map Value.copy

@[simp]
theorem Value.copy_eq_id : Value.copy = (id : Value ν → Value ν) := funext Value.map_id

@[simp]
theorem Binding.copy_eq_id : Binding.copy = (id : Binding (Value ν) → Binding (Value ν)) := by
  funext b
  rw [Binding.copy, Value.copy_eq_id]
  rfl

@[simp]
theorem Directive.copy_eq_id : Directive.copy = (id : Directive ν → Directive ν) := by
  funext d
  rw [Directive.copy, Value.copy_eq_id, d.map_id]
  rfl

@[simp]
theorem VariableDefinition.copy_eq_id :
    VariableDefinition.copy = (id : VariableDefinition ν → VariableDefinition ν) := by
  funext v
  rw [VariableDefinition.copy, Value.copy_eq_id, v.map_id]
  rfl

/-! ### Copies around a set -/

/-- A copy of the field around another selection set. -/
def Field.copyWith {α : Type} (f : Field ν α) (set : List α) : Field ν α :=
  ⟨f.aliasName, f.name, f.arguments.map Binding.copy, f.directives.map Directive.copy, set⟩

def FragmentSpread.copy (s : FragmentSpread ν) : FragmentSpread ν := ⟨s.name, s.directives.map Directive.copy⟩

/-- A copy of the inline fragment around another selection set. -/
def InlineFragment.copyWith {α : Type} (f : InlineFragment ν α) (set : List α) : InlineFragment ν α :=
  ⟨f.typeCondition, f.directives.map Directive.copy, set⟩

/-- A copy of the operation around another selection set. -/
def Operation.copyWith (o : Operation ν) (set : SelectionSet ν) : Operation ν :=
  ⟨o.kind, o.name, o.variableDefinitions.map VariableDefinition.copy, o.directives.map Directive.copy, set⟩

/-- A copy of the fragment around another selection set. -/
def Fragment.copyWith (f : Fragment ν) (set : SelectionSet ν) : Fragment ν :=
  ⟨f.name, f.typeCondition, f.directives.map Directive.copy, set⟩

theorem Field.copyWith_eq {α : Type} (f : Field ν α) (set : List α) :
    f.copyWith set = { f with selectionSet := set } := by
  simp [Field.copyWith]

theorem FragmentSpread.copy_eq (s : FragmentSpread ν) : s.copy = s := by simp [FragmentSpread.copy]

theorem InlineFragment.copyWith_eq {α : Type} (f : InlineFragment ν α) (set : List α) :
    f.copyWith set = { f with selectionSet := set } := by
  simp [InlineFragment.copyWith]

theorem Operation.copyWith_eq (o : Operation ν) (set : SelectionSet ν) :
    o.copyWith set = { o with selectionSet := set } := by
  simp [Operation.copyWith]

theorem Fragment.copyWith_eq (f : Fragment ν) (set : SelectionSet ν) :
    f.copyWith set = { f with selectionSet := set } := by
  simp [Fragment.copyWith]

end PersistedQuery
