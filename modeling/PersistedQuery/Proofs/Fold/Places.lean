import Mathlib.Data.List.Nodup
import PersistedQuery.Proofs.Fold.PostOrder

/-!
# The places of a fold

A fold comes to its nodes at pairwise distinct paths, all of which extend the path at which it begins
(`Node.separate_postOrder`).  The nodes below a set or a document come in parts, one for each position, and the paths of
a part go on with that position (`separate_zipIdx`).  The node that owns them stands above them all (`Separate.own`).
-/

namespace PersistedQuery

variable {ν : Type}

/-! ### Paths that extend a path -/

namespace Path

/-- The second path leads through the first one. -/
def Extends (base p : Path) : Prop := base.segments <+: p.segments

/-- The second path leads through the first one and at least one step further. -/
def ExtendsFurther (base p : Path) : Prop := ∃ s, (base.push s).Extends p

variable {base p : Path} {s t : Segment}

theorem extends_self (p : Path) : p.Extends p := List.prefix_refl _

theorem Extends.of_push (h : (base.push s).Extends p) : base.Extends p := (List.prefix_append _ [s]).trans h

theorem ExtendsFurther.extends (h : base.ExtendsFurther p) : base.Extends p := by
  obtain ⟨s, h⟩ := h
  exact h.of_push

theorem ExtendsFurther.ne (h : base.ExtendsFurther p) : p ≠ base := by
  rintro rfl
  obtain ⟨s, h⟩ := h
  have length := h.length_le
  simp only [push, List.length_append, List.length_singleton] at length
  omega

/-- The step after a path can be read off what extends it. -/
theorem Extends.step_unique (hs : (base.push s).Extends p) (ht : (base.push t).Extends p) : s = t := by
  have same : (base.push s).segments <+: (base.push t).segments :=
    List.prefix_of_prefix_length_le hs ht (by simp [push])
  have segments := same.eq_of_length (by simp [push])
  simpa [push] using segments

end Path

/-! ### Nodes at distinct paths -/

/-- The nodes stand at pairwise distinct paths, all of which are in the scope. -/
structure Separate (scope : Path → Prop) (nodes : List (Callback × Visit)) : Prop where
  nodup : (nodes.map (·.2.path)).Nodup
  inScope : ∀ x ∈ nodes, scope x.2.path

section

variable {visit : Visit} {nodes : List (Callback × Visit)}

theorem Separate.below {s : Segment} (h : Separate (visit.path.push s).Extends nodes) :
    Separate visit.path.ExtendsFurther nodes :=
  ⟨h.nodup, fun x mem => ⟨s, h.inScope x mem⟩⟩

/-- The owner of the nodes comes behind them and stands above them. -/
theorem Separate.own (h : Separate visit.path.ExtendsFurther nodes) (callback : Callback) :
    Separate visit.path.Extends (nodes ++ [(callback, visit)]) := by
  constructor
  · rw [List.map_append]
    refine h.nodup.append (List.nodup_singleton _) ?_
    intro p below own
    obtain ⟨x, mem, rfl⟩ := List.mem_map.1 below
    exact (h.inScope x mem).ne (List.mem_singleton.1 own)
  · rw [List.forall_mem_append, List.forall_mem_singleton]
    exact ⟨fun x mem => (h.inScope x mem).extends, Path.extends_self _⟩

/-- Parts for the children at different positions have no path in common. -/
theorem separate_zipIdx {α : Type} (part : Visit → α → List (Callback × Visit)) {l : List α}
    (each : ∀ a ∈ l, ∀ visit : Visit, Separate visit.path.Extends (part visit a)) (visit : Visit) (i : Nat) :
    Separate visit.path.ExtendsFurther ((l.zipIdx i).flatMap fun x => part (visit.child x.2) x.1) := by
  have parts : ∀ x ∈ l.zipIdx i,
      Separate (visit.path.push (.index x.2)).Extends (part (visit.child x.2) x.1) := fun x mem =>
    each x.1 (List.fst_mem_of_mem_zipIdx mem) (visit.child x.2)
  have positions : (l.zipIdx i).Pairwise fun x y => x.2 ≠ y.2 := by
    have nodup : ((l.zipIdx i).map Prod.snd).Nodup := by
      rw [List.zipIdx_map_snd]
      exact List.nodup_range'
    exact List.pairwise_map.1 nodup
  constructor
  · rw [List.map_flatMap, List.nodup_flatMap]
    refine ⟨fun x mem => (parts x mem).nodup, positions.imp_of_mem ?_⟩
    -- a path of both parts would go on with two positions
    intro x y hx hy ne p first second
    obtain ⟨v, hv, rfl⟩ := List.mem_map.1 first
    obtain ⟨w, hw, same⟩ := List.mem_map.1 second
    have atX := (parts x hx).inScope v hv
    have atY := (parts y hy).inScope w hw
    rw [same] at atY
    exact ne (Segment.index.inj (atX.step_unique atY))
  · intro v mem
    obtain ⟨x, hx, hv⟩ := List.mem_flatMap.1 mem
    exact ⟨_, (parts x hx).inScope v hv⟩

end

/-! ### The nodes of a fold -/

theorem SelectionSet.postOrderFrom_eq_flatMap (visit : Visit) (i : Nat) (set : SelectionSet ν) :
    SelectionSet.postOrderFrom visit i set = (set.zipIdx i).flatMap fun x => x.1.postOrder (visit.child x.2) := by
  induction set generalizing i with
  | nil => rfl
  | cons s set ih => rw [SelectionSet.postOrderFrom, List.zipIdx_cons, List.flatMap_cons, ih]

theorem Definition.postOrderFrom_eq_flatMap (visit : Visit) (i : Nat) (ds : List (Definition ν)) :
    Definition.postOrderFrom visit i ds = (ds.zipIdx i).flatMap fun x => x.1.postOrder (visit.child x.2) := by
  induction ds generalizing i with
  | nil => rfl
  | cons d ds ih => rw [Definition.postOrderFrom, List.zipIdx_cons, List.flatMap_cons, ih]

private theorem SelectionSet.separate_of_forall {set : SelectionSet ν}
    (each : ∀ s ∈ set, ∀ visit : Visit, Separate visit.path.Extends (s.postOrder visit)) (visit : Visit) :
    Separate visit.path.Extends (SelectionSet.postOrder visit set) := by
  rw [SelectionSet.postOrder, SelectionSet.postOrderFrom_eq_flatMap]
  exact (separate_zipIdx Selection.postOrder each visit 0).own .selectionSet

theorem Selection.separate_postOrder (s : Selection ν) (visit : Visit) :
    Separate visit.path.Extends (s.postOrder visit) := by
  induction s using Selection.induction generalizing visit with
  | field f ih => exact (SelectionSet.separate_of_forall ih (visit.within .field)).below.own .field
  | spread s =>
    exact ⟨List.nodup_singleton _, List.forall_mem_singleton.2 (Path.extends_self _)⟩
  | inlineFragment f ih =>
    exact (SelectionSet.separate_of_forall ih (visit.within .inlineFragment)).below.own .inlineFragment

theorem SelectionSet.separate_postOrder (set : SelectionSet ν) (visit : Visit) :
    Separate visit.path.Extends (SelectionSet.postOrder visit set) :=
  SelectionSet.separate_of_forall (fun s _ => s.separate_postOrder) visit

theorem Definition.separate_postOrder (d : Definition ν) (visit : Visit) :
    Separate visit.path.Extends (d.postOrder visit) := by
  cases d with
  | operation o => exact (o.selectionSet.separate_postOrder (visit.within .operation)).below.own .operation
  | fragment f => exact (f.selectionSet.separate_postOrder (visit.within .fragment)).below.own .fragment

/-- The nodes of a fold stand at pairwise distinct paths, which extend the path at which the fold begins. -/
theorem Node.separate_postOrder (node : Node ν) (visit : Visit) :
    Separate visit.path.Extends (node.postOrder visit) := by
  cases node with
  | document d =>
    have definitions := separate_zipIdx Definition.postOrder
      (fun x (_ : x ∈ d.definitions) => x.separate_postOrder) visit 0
    rw [Node.postOrder, Definition.postOrderFrom_eq_flatMap]
    exact ⟨definitions.nodup, fun x mem => (definitions.inScope x mem).extends⟩
  | operation o => exact (Definition.operation o).separate_postOrder visit
  | fragment f => exact (Definition.fragment f).separate_postOrder visit
  | selectionSet set => exact set.separate_postOrder visit
  | selection s => exact s.separate_postOrder visit
  | field f => exact (Selection.field f).separate_postOrder visit
  | spread s => exact (Selection.spread s).separate_postOrder visit
  | inlineFragment f => exact (Selection.inlineFragment f).separate_postOrder visit

end PersistedQuery
