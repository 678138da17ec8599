import Mathlib.Data.List.Forall2
import PersistedQuery.Proofs.Traversal

/-!
# Documents related node by node

`Document.Rel R` relates documents of the same shape and with the same words that have related values in the same
places.  If the outcomes of a conversion of values are equal exactly where the values are related, then the outcomes of
the conversion of documents are equal exactly where the documents are (`Document.reflects_mapM`).  Two conversions that
do the same to related values do the same to related documents, also where they fail (`Document.mapM_congr`).
-/

namespace PersistedQuery

/-! ### Related nodes -/

section

variable {ν μ : Type} (R : Value ν → Value μ → Prop)

def Binding.Rel {α β : Type} (R : α → β → Prop) (b : Binding α) (c : Binding β) : Prop :=
  b.name = c.name ∧ R b.value c.value

def Directive.Rel (d : Directive ν) (e : Directive μ) : Prop :=
  d.name = e.name ∧ List.Forall₂ (Binding.Rel R) d.arguments e.arguments

def VariableDefinition.Rel (v : VariableDefinition ν) (w : VariableDefinition μ) : Prop :=
  v.name = w.name ∧ v.type = w.type ∧ Option.Rel R v.defaultValue w.defaultValue ∧
    List.Forall₂ (Directive.Rel R) v.directives w.directives

def FragmentSpread.Rel (s : FragmentSpread ν) (t : FragmentSpread μ) : Prop :=
  s.name = t.name ∧ List.Forall₂ (Directive.Rel R) s.directives t.directives

mutual

def Selection.Rel : Selection ν → Selection μ → Prop
  | .field f, .field g =>
    f.aliasName = g.aliasName ∧ f.name = g.name ∧ List.Forall₂ (Binding.Rel R) f.arguments g.arguments ∧
      List.Forall₂ (Directive.Rel R) f.directives g.directives ∧ SelectionSet.Rel f.selectionSet g.selectionSet
  | .spread s, .spread t => s.Rel R t
  | .inlineFragment f, .inlineFragment g =>
    f.typeCondition = g.typeCondition ∧ List.Forall₂ (Directive.Rel R) f.directives g.directives ∧
      SelectionSet.Rel f.selectionSet g.selectionSet
  | _, _ => False

def SelectionSet.Rel : SelectionSet ν → SelectionSet μ → Prop
  | [], [] => True
  | s :: set, t :: set' => s.Rel t ∧ SelectionSet.Rel set set'
  | _, _ => False

end

theorem SelectionSet.rel_iff (set : SelectionSet ν) (set' : SelectionSet μ) :
    SelectionSet.Rel R set set' ↔ List.Forall₂ (Selection.Rel R) set set' := by
  induction set generalizing set' with
  | nil => cases set' <;> simp [SelectionSet.Rel]
  | cons s set ih => cases set' <;> simp [SelectionSet.Rel, ih]

def Operation.Rel (o : Operation ν) (p : Operation μ) : Prop :=
  o.kind = p.kind ∧ o.name = p.name ∧
    List.Forall₂ (VariableDefinition.Rel R) o.variableDefinitions p.variableDefinitions ∧
    List.Forall₂ (Directive.Rel R) o.directives p.directives ∧ SelectionSet.Rel R o.selectionSet p.selectionSet

def Fragment.Rel (f : Fragment ν) (g : Fragment μ) : Prop :=
  f.name = g.name ∧ f.typeCondition = g.typeCondition ∧ List.Forall₂ (Directive.Rel R) f.directives g.directives ∧
    SelectionSet.Rel R f.selectionSet g.selectionSet

def Definition.Rel : Definition ν → Definition μ → Prop
  | .operation o, .operation p => o.Rel R p
  | .fragment f, .fragment g => f.Rel R g
  | _, _ => False

def Document.Rel (d : Document ν) (e : Document μ) : Prop := List.Forall₂ (Definition.Rel R) d.definitions e.definitions

end

/-! ### Conversions that tell apart what is not related -/

/-- Where the conversion of `x` succeeds and that of another node does, too, the outcomes are equal exactly if `x` is
related to that node. -/
def Reflects {ε α β : Type} (f : α → Except ε β) (R : α → α → Prop) (x : α) : Prop :=
  ∀ ⦃y : α⦄ ⦃a b : β⦄, f x = .ok a → f y = .ok b → (a = b ↔ R x y)

section

variable {ε α β γ : Type}

theorem bind_eq_ok_iff {run : Except ε α} {next : α → Except ε β} {b : β} :
    run >>= next = .ok b ↔ ∃ a, run = .ok a ∧ next a = .ok b := by
  cases run with
  | error e => simp [bind, Except.bind]
  | ok a => simp [bind, Except.bind]

theorem map_eq_ok_iff {run : Except ε α} {g : α → β} {b : β} :
    (run >>= fun a => pure (g a)) = .ok b ↔ ∃ a, run = .ok a ∧ b = g a := by
  rw [bind_eq_ok_iff]
  simp [pure, Except.pure, eq_comm]

variable {f : α → Except ε β} {R : α → α → Prop}

private theorem mapM_nil_eq_ok_iff {b : List β} : [].mapM f = .ok b ↔ b = [] := by
  simp [pure, Except.pure, eq_comm]

private theorem mapM_cons_eq_ok_iff {x : α} {l : List α} {b : List β} :
    (x :: l).mapM f = .ok b ↔ ∃ c, f x = .ok c ∧ ∃ cs, l.mapM f = .ok cs ∧ b = c :: cs := by
  rw [List.mapM_cons, bind_eq_ok_iff]
  exact exists_congr fun c => and_congr_right fun _ => map_eq_ok_iff

/-- A list is converted element by element. -/
theorem mapM_eq_ok_iff {S : α → β → Prop} {l : List α} {b : List β} (h : ∀ x ∈ l, ∀ c, f x = .ok c ↔ S x c) :
    l.mapM f = .ok b ↔ List.Forall₂ S l b := by
  induction l generalizing b with
  | nil => rw [mapM_nil_eq_ok_iff, List.forall₂_nil_left_iff]
  | cons x l ih =>
    rw [List.forall_mem_cons] at h
    rw [mapM_cons_eq_ok_iff, List.forall₂_cons_left_iff]
    constructor
    · rintro ⟨c, hc, cs, hcs, rfl⟩
      exact ⟨c, cs, (h.1 c).1 hc, (ih h.2).1 hcs, rfl⟩
    · rintro ⟨c, cs, hc, hcs, rfl⟩
      exact ⟨c, (h.1 c).2 hc, cs, (ih h.2).2 hcs, rfl⟩

theorem Binding.mapM_eq_ok_iff {S : α → β → Prop} {b : Binding α} {c : Binding β}
    (h : ∀ w, f b.value = .ok w ↔ S b.value w) : Binding.mapM f b = .ok c ↔ Binding.Rel S b c := by
  rw [Binding.mapM, map_eq_ok_iff]
  obtain ⟨name, value⟩ := c
  constructor
  · rintro ⟨w, hw, same⟩
    cases same
    exact ⟨rfl, (h value).1 hw⟩
  · rintro ⟨same, related⟩
    refine ⟨value, (h value).2 related, ?_⟩
    rw [same]

theorem reflects_listMapM {l : List α} (h : ∀ x ∈ l, Reflects f R x) :
    Reflects (List.mapM f) (List.Forall₂ R) l := by
  induction l with
  | nil =>
    intro m a b ha hb
    rw [mapM_nil_eq_ok_iff] at ha
    rw [ha, List.forall₂_nil_left_iff]
    cases m with
    | nil => simp [mapM_nil_eq_ok_iff.1 hb]
    | cons y m =>
      obtain ⟨c, -, cs, -, rfl⟩ := mapM_cons_eq_ok_iff.1 hb
      simp
  | cons x l ih =>
    rw [List.forall_mem_cons] at h
    intro m a b ha hb
    obtain ⟨c, hc, cs, hcs, rfl⟩ := mapM_cons_eq_ok_iff.1 ha
    cases m with
    | nil => simp [mapM_nil_eq_ok_iff.1 hb]
    | cons y m =>
      obtain ⟨d, hd, ds, hds, rfl⟩ := mapM_cons_eq_ok_iff.1 hb
      rw [List.cons.injEq, List.forall₂_cons, h.1 hc hd, ih h.2 hcs hds]

theorem reflects_optionMapM (h : ∀ x, Reflects f R x) (o : Option α) : Reflects (Option.mapM f) (Option.Rel R) o := by
  have none_eq_ok {c : Option β} (hc : (none : Option α).mapM f = .ok c) : c = none := by
    simpa [pure, Except.pure, eq_comm] using hc
  have some_eq_ok {x : α} {c : Option β} (hc : (some x).mapM f = .ok c) : ∃ d, f x = .ok d ∧ c = some d := by
    rw [Option.mapM_some, map_eq_pure_bind] at hc
    exact map_eq_ok_iff.1 hc
  intro p a b ha hb
  cases o with
  | none =>
    obtain rfl := none_eq_ok ha
    cases p with
    | none =>
      obtain rfl := none_eq_ok hb
      exact iff_of_true rfl .none
    | some y =>
      obtain ⟨d, -, rfl⟩ := some_eq_ok hb
      exact iff_of_false nofun nofun
  | some x =>
    obtain ⟨c, hc, rfl⟩ := some_eq_ok ha
    cases p with
    | none =>
      obtain rfl := none_eq_ok hb
      exact iff_of_false nofun nofun
    | some y =>
      obtain ⟨d, hd, rfl⟩ := some_eq_ok hb
      rw [Option.some.injEq, h x hc hd]
      constructor
      · exact .some
      · rintro ⟨related⟩
        exact related

theorem Binding.reflects_mapM {b : Binding α} (h : Reflects f R b.value) :
    Reflects (Binding.mapM f) (Binding.Rel R) b := by
  intro c a a' ha ha'
  obtain ⟨v, hv, rfl⟩ := map_eq_ok_iff.1 ha
  obtain ⟨w, hw, rfl⟩ := map_eq_ok_iff.1 ha'
  rw [Binding.mk.injEq, h hv hw]
  rfl

end

section

variable {ε ν μ : Type} {f : Value ν → Except ε (Value μ)} {R : Value ν → Value ν → Prop}

private theorem SelectionSet.reflects_of_forall {set : SelectionSet ν}
    (each : ∀ s ∈ set, Reflects (Selection.mapM f) (Selection.Rel R) s) :
    Reflects (SelectionSet.mapM f) (SelectionSet.Rel R) set := by
  intro set' a b ha hb
  rw [SelectionSet.mapM_eq_mapM] at ha hb
  rw [SelectionSet.rel_iff]
  exact reflects_listMapM each ha hb

private theorem Selection.mapM_field_eq_ok {x : Field ν (Selection ν)} {b : Selection μ}
    (h : (Selection.field x).mapM f = .ok b) :
    ∃ as, x.arguments.mapM (Binding.mapM f) = .ok as ∧ ∃ ds, x.directives.mapM (Directive.mapM f) = .ok ds ∧
      ∃ set, SelectionSet.mapM f x.selectionSet = .ok set ∧ b = .field ⟨x.aliasName, x.name, as, ds, set⟩ := by
  rw [Selection.mapM] at h
  obtain ⟨as, has, h⟩ := bind_eq_ok_iff.1 h
  obtain ⟨ds, hds, h⟩ := bind_eq_ok_iff.1 h
  exact ⟨as, has, ds, hds, map_eq_ok_iff.1 h⟩

private theorem Selection.mapM_inlineFragment_eq_ok {x : InlineFragment ν (Selection ν)} {b : Selection μ}
    (h : (Selection.inlineFragment x).mapM f = .ok b) :
    ∃ ds, x.directives.mapM (Directive.mapM f) = .ok ds ∧
      ∃ set, SelectionSet.mapM f x.selectionSet = .ok set ∧ b = .inlineFragment ⟨x.typeCondition, ds, set⟩ := by
  rw [Selection.mapM] at h
  obtain ⟨ds, hds, h⟩ := bind_eq_ok_iff.1 h
  exact ⟨ds, hds, map_eq_ok_iff.1 h⟩

variable (h : ∀ v, Reflects f R v)
include h

private theorem reflects_bindings (bs : List (Binding (Value ν))) :
    Reflects (List.mapM (Binding.mapM f)) (List.Forall₂ (Binding.Rel R)) bs :=
  reflects_listMapM fun b _ => Binding.reflects_mapM (h b.value)

private theorem Directive.reflects_mapM (ds : List (Directive ν)) :
    Reflects (List.mapM (Directive.mapM f)) (List.Forall₂ (Directive.Rel R)) ds := by
  refine reflects_listMapM fun d _ => ?_
  intro e a b ha hb
  obtain ⟨as, has, rfl⟩ := map_eq_ok_iff.1 ha
  obtain ⟨bs, hbs, rfl⟩ := map_eq_ok_iff.1 hb
  rw [Directive.mk.injEq, reflects_bindings h d.arguments has hbs]
  rfl

private theorem VariableDefinition.reflects_mapM (v : VariableDefinition ν) :
    Reflects (VariableDefinition.mapM f) (VariableDefinition.Rel R) v := by
  intro w a b ha hb
  obtain ⟨default, hd, ha⟩ := bind_eq_ok_iff.1 ha
  obtain ⟨ds, hds, rfl⟩ := map_eq_ok_iff.1 ha
  obtain ⟨default', hd', hb⟩ := bind_eq_ok_iff.1 hb
  obtain ⟨ds', hds', rfl⟩ := map_eq_ok_iff.1 hb
  rw [VariableDefinition.mk.injEq, reflects_optionMapM h v.defaultValue hd hd',
    Directive.reflects_mapM h v.directives hds hds']
  rfl

private theorem FragmentSpread.reflects_mapM (s : FragmentSpread ν) :
    Reflects (FragmentSpread.mapM f) (FragmentSpread.Rel R) s := by
  intro t a b ha hb
  obtain ⟨ds, hds, rfl⟩ := map_eq_ok_iff.1 ha
  obtain ⟨ds', hds', rfl⟩ := map_eq_ok_iff.1 hb
  rw [FragmentSpread.mk.injEq, Directive.reflects_mapM h s.directives hds hds']
  rfl

private theorem Selection.reflects_mapM (s : Selection ν) : Reflects (Selection.mapM f) (Selection.Rel R) s := by
  induction s using Selection.induction with
  | field x ih =>
    intro t a b ha hb
    obtain ⟨as, has, ds, hds, set, hset, rfl⟩ := Selection.mapM_field_eq_ok ha
    cases t with
    | field y =>
      obtain ⟨as', has', ds', hds', set', hset', rfl⟩ := Selection.mapM_field_eq_ok hb
      have selections := SelectionSet.reflects_of_forall ih hset hset'
      rw [Selection.field.injEq, Field.mk.injEq, reflects_bindings h x.arguments has has',
        Directive.reflects_mapM h x.directives hds hds', selections, Selection.Rel]
    | spread t =>
      obtain ⟨_, _, rfl⟩ := map_eq_ok_iff.1 hb
      simp [Selection.Rel]
    | inlineFragment y =>
      obtain ⟨_, _, _, _, rfl⟩ := Selection.mapM_inlineFragment_eq_ok hb
      simp [Selection.Rel]
  | spread s =>
    intro t a b ha hb
    obtain ⟨s', hs, rfl⟩ := map_eq_ok_iff.1 ha
    cases t with
    | field y =>
      obtain ⟨_, _, _, _, _, _, rfl⟩ := Selection.mapM_field_eq_ok hb
      simp [Selection.Rel]
    | spread t =>
      obtain ⟨t', ht, rfl⟩ := map_eq_ok_iff.1 hb
      rw [Selection.spread.injEq, FragmentSpread.reflects_mapM h s hs ht, Selection.Rel]
    | inlineFragment y =>
      obtain ⟨_, _, _, _, rfl⟩ := Selection.mapM_inlineFragment_eq_ok hb
      simp [Selection.Rel]
  | inlineFragment x ih =>
    intro t a b ha hb
    obtain ⟨ds, hds, set, hset, rfl⟩ := Selection.mapM_inlineFragment_eq_ok ha
    cases t with
    | field y =>
      obtain ⟨_, _, _, _, _, _, rfl⟩ := Selection.mapM_field_eq_ok hb
      simp [Selection.Rel]
    | spread t =>
      obtain ⟨_, _, rfl⟩ := map_eq_ok_iff.1 hb
      simp [Selection.Rel]
    | inlineFragment y =>
      obtain ⟨ds', hds', set', hset', rfl⟩ := Selection.mapM_inlineFragment_eq_ok hb
      have selections := SelectionSet.reflects_of_forall ih hset hset'
      rw [Selection.inlineFragment.injEq, InlineFragment.mk.injEq, Directive.reflects_mapM h x.directives hds hds',
        selections, Selection.Rel]

private theorem SelectionSet.reflects_mapM (set : SelectionSet ν) :
    Reflects (SelectionSet.mapM f) (SelectionSet.Rel R) set :=
  SelectionSet.reflects_of_forall fun s _ => Selection.reflects_mapM h s

private theorem Operation.reflects_mapM (o : Operation ν) : Reflects (Operation.mapM f) (Operation.Rel R) o := by
  intro p a b ha hb
  obtain ⟨vs, hvs, ha⟩ := bind_eq_ok_iff.1 ha
  obtain ⟨ds, hds, ha⟩ := bind_eq_ok_iff.1 ha
  obtain ⟨set, hset, rfl⟩ := map_eq_ok_iff.1 ha
  obtain ⟨vs', hvs', hb⟩ := bind_eq_ok_iff.1 hb
  obtain ⟨ds', hds', hb⟩ := bind_eq_ok_iff.1 hb
  obtain ⟨set', hset', rfl⟩ := map_eq_ok_iff.1 hb
  have definitions := reflects_listMapM fun v (_ : v ∈ o.variableDefinitions) => VariableDefinition.reflects_mapM h v
  rw [Operation.mk.injEq, definitions hvs hvs', Directive.reflects_mapM h o.directives hds hds',
    SelectionSet.reflects_mapM h o.selectionSet hset hset']
  rfl

private theorem Fragment.reflects_mapM (x : Fragment ν) : Reflects (Fragment.mapM f) (Fragment.Rel R) x := by
  intro y a b ha hb
  obtain ⟨ds, hds, ha⟩ := bind_eq_ok_iff.1 ha
  obtain ⟨set, hset, rfl⟩ := map_eq_ok_iff.1 ha
  obtain ⟨ds', hds', hb⟩ := bind_eq_ok_iff.1 hb
  obtain ⟨set', hset', rfl⟩ := map_eq_ok_iff.1 hb
  rw [Fragment.mk.injEq, Directive.reflects_mapM h x.directives hds hds',
    SelectionSet.reflects_mapM h x.selectionSet hset hset']
  rfl

private theorem Definition.reflects_mapM (x : Definition ν) : Reflects (Definition.mapM f) (Definition.Rel R) x := by
  intro y a b ha hb
  cases x with
  | operation o =>
    obtain ⟨o', ho, rfl⟩ := map_eq_ok_iff.1 ha
    cases y with
    | operation p =>
      obtain ⟨p', hp, rfl⟩ := map_eq_ok_iff.1 hb
      rw [Definition.operation.injEq, Operation.reflects_mapM h o ho hp, Definition.Rel]
    | fragment y =>
      obtain ⟨_, _, rfl⟩ := map_eq_ok_iff.1 hb
      simp [Definition.Rel]
  | fragment x =>
    obtain ⟨x', hx, rfl⟩ := map_eq_ok_iff.1 ha
    cases y with
    | operation p =>
      obtain ⟨_, _, rfl⟩ := map_eq_ok_iff.1 hb
      simp [Definition.Rel]
    | fragment y =>
      obtain ⟨y', hy, rfl⟩ := map_eq_ok_iff.1 hb
      rw [Definition.fragment.injEq, Fragment.reflects_mapM h x hx hy, Definition.Rel]

/-- The conversion of documents tells apart the documents that are not related, if that of values tells apart the
values that are not. -/
theorem Document.reflects_mapM (d : Document ν) : Reflects (Document.mapM f) (Document.Rel R) d := by
  intro e a b ha hb
  obtain ⟨xs, hxs, rfl⟩ := map_eq_ok_iff.1 ha
  obtain ⟨ys, hys, rfl⟩ := map_eq_ok_iff.1 hb
  have definitions := reflects_listMapM fun x (_ : x ∈ d.definitions) => Definition.reflects_mapM h x
  rw [Document.mk.injEq, definitions hxs hys, Document.Rel]

end

/-! ### Conversions of what is related -/

section

variable {ε α β γ : Type} {S : α → β → Prop} {f : α → Except ε γ} {g : β → Except ε γ}

theorem mapM_congr {xs : List α} {ys : List β} (related : List.Forall₂ S xs ys) (h : ∀ x y, S x y → f x = g y) :
    xs.mapM f = ys.mapM g := by
  induction related with
  | nil => rw [List.mapM_nil, List.mapM_nil]
  | cons first _ ih => rw [List.mapM_cons, List.mapM_cons, h _ _ first, ih]

theorem optionMapM_congr {o : Option α} {p : Option β} (related : Option.Rel S o p) (h : ∀ x y, S x y → f x = g y) :
    o.mapM f = p.mapM g := by
  cases related with
  | none => rfl
  | some same => rw [Option.mapM_some, Option.mapM_some, h _ _ same]

end

section

variable {ε ν ν' μ : Type} {R : Value ν → Value ν' → Prop} {f : Value ν → Except ε (Value μ)}
  {g : Value ν' → Except ε (Value μ)}

private theorem SelectionSet.mapM_congr_of_forall {set : SelectionSet ν} {set' : SelectionSet ν'}
    (each : ∀ s ∈ set, ∀ t, s.Rel R t → s.mapM f = t.mapM g) (related : SelectionSet.Rel R set set') :
    SelectionSet.mapM f set = SelectionSet.mapM g set' := by
  induction set generalizing set' with
  | nil =>
    cases set' with
    | nil => rfl
    | cons t set' => exact related.elim
  | cons s set ih =>
    rw [List.forall_mem_cons] at each
    cases set' with
    | nil => exact related.elim
    | cons t set' =>
      obtain ⟨first, rest⟩ := related
      rw [SelectionSet.mapM, SelectionSet.mapM, each.1 t first, ih each.2 rest]

variable (h : ∀ v w, R v w → f v = g w)
include h

private theorem mapM_congr_bindings {bs : List (Binding (Value ν))} {cs : List (Binding (Value ν'))}
    (related : List.Forall₂ (Binding.Rel R) bs cs) : bs.mapM (Binding.mapM f) = cs.mapM (Binding.mapM g) := by
  refine mapM_congr related fun b c same => ?_
  rw [Binding.mapM, Binding.mapM, same.1, h _ _ same.2]

private theorem Directive.mapM_congr {ds : List (Directive ν)} {es : List (Directive ν')}
    (related : List.Forall₂ (Directive.Rel R) ds es) : ds.mapM (Directive.mapM f) = es.mapM (Directive.mapM g) := by
  refine PersistedQuery.mapM_congr related fun d e same => ?_
  rw [Directive.mapM, Directive.mapM, same.1, mapM_congr_bindings h same.2]

private theorem VariableDefinition.mapM_congr {v : VariableDefinition ν} {w : VariableDefinition ν'}
    (related : v.Rel R w) : v.mapM f = w.mapM g := by
  obtain ⟨name, type, default, directives⟩ := related
  rw [VariableDefinition.mapM, VariableDefinition.mapM, name, type, optionMapM_congr default h,
    Directive.mapM_congr h directives]

private theorem Selection.mapM_congr {s : Selection ν} {t : Selection ν'} (related : s.Rel R t) :
    s.mapM f = t.mapM g := by
  induction s using Selection.induction generalizing t with
  | field x ih =>
    cases t with
    | field y =>
      obtain ⟨aliasName, name, arguments, directives, set⟩ := related
      rw [Selection.mapM, Selection.mapM, aliasName, name, mapM_congr_bindings h arguments,
        Directive.mapM_congr h directives, SelectionSet.mapM_congr_of_forall (fun s mem t => ih s mem) set]
    | spread _ => exact related.elim
    | inlineFragment _ => exact related.elim
  | spread x =>
    cases t with
    | spread y =>
      obtain ⟨name, directives⟩ := related
      rw [Selection.mapM, Selection.mapM, FragmentSpread.mapM, FragmentSpread.mapM, name,
        Directive.mapM_congr h directives]
    | field _ => exact related.elim
    | inlineFragment _ => exact related.elim
  | inlineFragment x ih =>
    cases t with
    | inlineFragment y =>
      obtain ⟨condition, directives, set⟩ := related
      rw [Selection.mapM, Selection.mapM, condition, Directive.mapM_congr h directives,
        SelectionSet.mapM_congr_of_forall (fun s mem t => ih s mem) set]
    | field _ => exact related.elim
    | spread _ => exact related.elim

private theorem SelectionSet.mapM_congr {set : SelectionSet ν} {set' : SelectionSet ν'}
    (related : SelectionSet.Rel R set set') : SelectionSet.mapM f set = SelectionSet.mapM g set' :=
  SelectionSet.mapM_congr_of_forall (fun _ _ _ => Selection.mapM_congr h) related

private theorem Definition.mapM_congr {x : Definition ν} {y : Definition ν'} (related : x.Rel R y) :
    x.mapM f = y.mapM g := by
  cases x with
  | operation o =>
    cases y with
    | operation p =>
      obtain ⟨kind, name, definitions, directives, set⟩ := related
      have each := PersistedQuery.mapM_congr definitions fun _ _ => VariableDefinition.mapM_congr h
      rw [Definition.mapM, Definition.mapM, Operation.mapM, Operation.mapM, kind, name, each,
        Directive.mapM_congr h directives, SelectionSet.mapM_congr h set]
    | fragment _ => exact related.elim
  | fragment x =>
    cases y with
    | fragment y =>
      obtain ⟨name, condition, directives, set⟩ := related
      rw [Definition.mapM, Definition.mapM, Fragment.mapM, Fragment.mapM, name, condition,
        Directive.mapM_congr h directives, SelectionSet.mapM_congr h set]
    | operation _ => exact related.elim

/-- Two conversions that do the same to related values do the same to related documents. -/
theorem Document.mapM_congr {d : Document ν} {e : Document ν'} (related : d.Rel R e) : d.mapM f = e.mapM g := by
  have definitions := PersistedQuery.mapM_congr related fun _ _ => Definition.mapM_congr h
  rw [Document.mapM, Document.mapM, definitions]

end

end PersistedQuery
