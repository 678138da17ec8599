import PersistedQuery.Document.Traversal
import PersistedQuery.Proofs.Tree

/-!
# Traversals that fail

A traversal of a document meets its values in the order in which they are written, `Document.values`.  If what is done
to a value stops at the first of the errors of that value, the whole traversal stops at the first error of all values
(`Document.stopsAt_mapM`): each step runs its parts one after the other, and the errors of the parts follow each other
(`StopsAt.bind`).
-/

namespace PersistedQuery

/-! ### Lists of children -/

section

variable {m : Type → Type} [Monad m] [LawfulMonad m] {ν μ : Type}

theorem Value.mapItemsM_eq_mapM (f : ν → m μ) (vs : List (Value ν)) :
    Value.mapItemsM f vs = vs.mapM (Value.mapM f) := by
  induction vs with
  | nil => simp [Value.mapItemsM]
  | cons v vs ih => simp [Value.mapItemsM, ih]

theorem Value.mapFieldsM_eq_mapM (f : ν → m μ) (bs : List (Binding (Value ν))) :
    Value.mapFieldsM f bs = bs.mapM (Binding.mapM (Value.mapM f)) := by
  induction bs with
  | nil => simp [Value.mapFieldsM]
  | cons b bs ih => simp [Value.mapFieldsM, Binding.mapM, ih]

theorem SelectionSet.mapM_eq_mapM (f : Value ν → m (Value μ)) (set : SelectionSet ν) :
    SelectionSet.mapM f set = List.mapM (Selection.mapM f) set := by
  induction set with
  | nil => simp [SelectionSet.mapM]
  | cons s set ih => simp [SelectionSet.mapM, ih]

end

/-! ### Values in the order of writing -/

section

variable {ν : Type}

def Directive.values (d : Directive ν) : List (Value ν) := d.arguments.map (·.value)

def VariableDefinition.values (v : VariableDefinition ν) : List (Value ν) :=
  v.defaultValue.toList ++ v.directives.flatMap Directive.values

mutual

def Selection.values : Selection ν → List (Value ν)
  | .field f =>
    f.arguments.map (·.value) ++ (f.directives.flatMap Directive.values ++ SelectionSet.values f.selectionSet)
  | .spread s => s.directives.flatMap Directive.values
  | .inlineFragment f => f.directives.flatMap Directive.values ++ SelectionSet.values f.selectionSet

def SelectionSet.values : SelectionSet ν → List (Value ν)
  | [] => []
  | s :: set => s.values ++ SelectionSet.values set

end

def Operation.values (o : Operation ν) : List (Value ν) :=
  o.variableDefinitions.flatMap VariableDefinition.values ++
    (o.directives.flatMap Directive.values ++ SelectionSet.values o.selectionSet)

def Fragment.values (f : Fragment ν) : List (Value ν) :=
  f.directives.flatMap Directive.values ++ SelectionSet.values f.selectionSet

def Definition.values : Definition ν → List (Value ν)
  | .operation o => o.values
  | .fragment f => f.values

/-- The defaults of variables and the arguments in a document. -/
def Document.values (d : Document ν) : List (Value ν) := d.definitions.flatMap Definition.values

theorem SelectionSet.values_eq_flatMap (set : SelectionSet ν) :
    SelectionSet.values set = set.flatMap Selection.values := by
  induction set with
  | nil => rfl
  | cons s set ih => simp [SelectionSet.values, ih]

end

/-! ### Stopping at the first error -/

/-- Of the errors that lie on the way of a run the first one stops it; without any it succeeds. -/
def StopsAt {ε α : Type} (run : Except ε α) (errors : List ε) : Prop :=
  match errors with
  | [] => ∃ a, run = .ok a
  | e :: _ => run = .error e

section

variable {ε α β : Type} {run : Except ε α} {errors more : List ε}

theorem stopsAt_pure (a : α) : StopsAt (pure a : Except ε α) [] := ⟨a, rfl⟩

theorem StopsAt.bind {next : α → Except ε β} (h : StopsAt run errors) (hn : ∀ a, StopsAt (next a) more) :
    StopsAt (run >>= next) (errors ++ more) := by
  cases errors with
  | nil =>
    obtain ⟨a, rfl⟩ := h
    exact hn a
  | cons e errors =>
    have stopped : run = .error e := h
    rw [stopped]
    exact rfl

theorem StopsAt.map (h : StopsAt run errors) (f : α → β) : StopsAt (run >>= fun a => pure (f a)) errors := by
  have whole := h.bind fun a => stopsAt_pure (ε := ε) (f a)
  rwa [List.append_nil] at whole

theorem stopsAt_mapM {f : α → Except ε β} {errors : α → List ε} {l : List α}
    (h : ∀ a ∈ l, StopsAt (f a) (errors a)) : StopsAt (l.mapM f) (l.flatMap errors) := by
  induction l with
  | nil => exact stopsAt_pure []
  | cons a l ih =>
    rw [List.forall_mem_cons] at h
    rw [List.mapM_cons, List.flatMap_cons]
    exact h.1.bind fun b => (ih h.2).map _

theorem stopsAt_optionMapM {f : α → Except ε β} {errors : α → List ε} {o : Option α}
    (h : ∀ a ∈ o, StopsAt (f a) (errors a)) : StopsAt (o.mapM f) (o.toList.flatMap errors) := by
  cases o with
  | none => exact stopsAt_pure none
  | some a => simpa using (h a rfl).map some

theorem StopsAt.fails_iff (h : StopsAt run errors) : (∃ e, run = .error e) ↔ errors ≠ [] := by
  cases errors with
  | nil =>
    obtain ⟨a, rfl⟩ := h
    simp
  | cons e errors =>
    have stopped : run = .error e := h
    simp [stopped]

/-- Where some of the elements are at fault, the run stops at the first one that is. -/
theorem StopsAt.eq_error_iff {l : List β} {fault : β → Prop} [DecidablePred fault] {error : β → ε}
    (h : StopsAt run (l.flatMap fun b => if fault b then [error b] else [])) (e : ε) :
    run = .error e ↔ ∃ before b after, l = before ++ b :: after ∧ (∀ c ∈ before, ¬ fault c) ∧ fault b ∧ e = error b := by
  induction l with
  | nil =>
    obtain ⟨a, rfl⟩ := h
    simp
  | cons c l ih =>
    rw [List.flatMap_cons] at h
    by_cases first : fault c
    · rw [if_pos first] at h
      have stopped : run = .error (error c) := h
      rw [stopped, Except.error.injEq]
      constructor
      · rintro rfl
        exact ⟨[], c, l, rfl, by simp, first, rfl⟩
      · rintro ⟨before, b, after, split, faultless, _, rfl⟩
        cases before with
        | nil =>
          rw [List.nil_append, List.cons.injEq] at split
          rw [split.1]
        | cons d before =>
          rw [List.cons_append, List.cons.injEq] at split
          exact absurd (split.1 ▸ first) (faultless d (by simp))
    · rw [if_neg first, List.nil_append] at h
      rw [ih h]
      constructor
      · rintro ⟨before, b, after, rfl, faultless, rest⟩
        exact ⟨c :: before, b, after, rfl, List.forall_mem_cons.2 ⟨first, faultless⟩, rest⟩
      · rintro ⟨before, b, after, split, faultless, found, rfl⟩
        cases before with
        | nil =>
          rw [List.nil_append, List.cons.injEq] at split
          exact absurd (split.1 ▸ found) first
        | cons d before =>
          rw [List.cons_append, List.cons.injEq] at split
          exact ⟨before, b, after, split.2, fun x mem => faultless x (by simp [mem]), found, rfl⟩

end

/-! ### Nodes of a document -/

section

variable {ε ν μ : Type} {f : Value ν → Except ε (Value μ)} {errors : Value ν → List ε}

private theorem SelectionSet.stopsAt_of_forall {set : SelectionSet ν}
    (each : ∀ s ∈ set, StopsAt (s.mapM f) (s.values.flatMap errors)) :
    StopsAt (SelectionSet.mapM f set) ((SelectionSet.values set).flatMap errors) := by
  rw [SelectionSet.mapM_eq_mapM, SelectionSet.values_eq_flatMap, List.flatMap_assoc]
  exact PersistedQuery.stopsAt_mapM each

variable (h : ∀ v, StopsAt (f v) (errors v))
include h

private theorem stopsAt_bindings (bs : List (Binding (Value ν))) :
    StopsAt (bs.mapM (Binding.mapM f)) ((bs.map (·.value)).flatMap errors) := by
  rw [List.flatMap_map]
  exact stopsAt_mapM fun b _ => (h b.value).map _

private theorem Directive.stopsAt_mapM (ds : List (Directive ν)) :
    StopsAt (ds.mapM (Directive.mapM f)) ((ds.flatMap Directive.values).flatMap errors) := by
  rw [List.flatMap_assoc]
  exact PersistedQuery.stopsAt_mapM fun d _ => (stopsAt_bindings h d.arguments).map _

private theorem VariableDefinition.stopsAt_mapM (v : VariableDefinition ν) :
    StopsAt (v.mapM f) (v.values.flatMap errors) := by
  rw [VariableDefinition.values, List.flatMap_append]
  exact (stopsAt_optionMapM fun a _ => h a).bind fun _ => (Directive.stopsAt_mapM h v.directives).map _

private theorem Selection.stopsAt_mapM (s : Selection ν) : StopsAt (s.mapM f) (s.values.flatMap errors) := by
  induction s using Selection.induction with
  | field x ih =>
    rw [Selection.values, List.flatMap_append, List.flatMap_append, Selection.mapM]
    refine (stopsAt_bindings h x.arguments).bind fun _ => ?_
    refine (Directive.stopsAt_mapM h x.directives).bind fun _ => ?_
    exact (SelectionSet.stopsAt_of_forall ih).map _
  | spread s => exact ((Directive.stopsAt_mapM h s.directives).map _).map _
  | inlineFragment x ih =>
    rw [Selection.values, List.flatMap_append, Selection.mapM]
    refine (Directive.stopsAt_mapM h x.directives).bind fun _ => ?_
    exact (SelectionSet.stopsAt_of_forall ih).map _

private theorem Definition.stopsAt_mapM (x : Definition ν) : StopsAt (x.mapM f) (x.values.flatMap errors) := by
  have selections (set : SelectionSet ν) := SelectionSet.stopsAt_of_forall fun s (_ : s ∈ set) =>
    Selection.stopsAt_mapM h s
  cases x with
  | operation o =>
    rw [Definition.values, Operation.values, List.flatMap_append, List.flatMap_append, List.flatMap_assoc]
    have definitions : StopsAt (o.variableDefinitions.mapM (VariableDefinition.mapM f)) _ :=
      PersistedQuery.stopsAt_mapM fun v _ => VariableDefinition.stopsAt_mapM h v
    refine StopsAt.map (definitions.bind fun _ => ?_) _
    exact (Directive.stopsAt_mapM h o.directives).bind fun _ => (selections o.selectionSet).map _
  | fragment x =>
    rw [Definition.values, Fragment.values, List.flatMap_append]
    refine StopsAt.map ?_ _
    exact (Directive.stopsAt_mapM h x.directives).bind fun _ => (selections x.selectionSet).map _

/-- A traversal stops at the first error of the values, in the order of writing. -/
theorem Document.stopsAt_mapM (d : Document ν) : StopsAt (d.mapM f) (d.values.flatMap errors) := by
  rw [Document.values, List.flatMap_assoc]
  exact (PersistedQuery.stopsAt_mapM fun x _ => Definition.stopsAt_mapM h x).map _

end

end PersistedQuery
