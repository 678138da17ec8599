import Mathlib.Data.List.Forall2
import PersistedQuery.Proofs.Fold.Places
import PersistedQuery.Proofs.Fold.Refusing

/-!
# Paths identify nodes

The text of a path is all that an error or a log tells of a node.  It can be read back as the steps of the path
(`Path.text_injective`), and these steps lead from the node that a fold starts at to the node that the folder is called
for (`Node.Rebuilt.forall₂_stands`).

* `Node.calls_identified`: no two calls of a fold have one text, and each path leads to the node of its call through as
  many selection sets as its depth says.
-/

namespace PersistedQuery

variable {ν σ : Type}

/-! ### Texts of paths -/

theorem Segment.text_ne_nil (s : Segment) : s.text ≠ [] := by
  cases s with
  | index i => exact Nat.toDigits_ne_nil
  | selectionSet => decide

theorem Segment.point_notMem_text (s : Segment) : '.' ∉ s.text := by
  cases s with
  | index i =>
    intro mem
    have digit : '.'.isDigit = true := Nat.isDigit_of_mem_toDigits (by decide) (by decide) mem
    revert digit
    decide
  | selectionSet => decide

theorem Segment.text_injective : Function.Injective Segment.text := by
  have name_ne_digits (i : Nat) : Segment.text .selectionSet ≠ Nat.toDigits 10 i := by
    intro same
    have mem : 's' ∈ Nat.toDigits 10 i := by
      rw [← same]
      decide
    have digit : 's'.isDigit = true := Nat.isDigit_of_mem_toDigits (by decide) (by decide) mem
    revert digit
    decide
  intro a b same
  cases a with
  | index i =>
    cases b with
    | index j =>
      have digits : Nat.toDigits 10 i = Nat.toDigits 10 j := same
      have read (n : Nat) : Nat.ofDigitChars 10 (Nat.toDigits 10 n) 0 = n := Nat.ofDigitChars_ten_toDigits
      have number : i = j := by rw [← read i, digits, read j]
      rw [number]
    | selectionSet => exact absurd same.symm (name_ne_digits i)
  | selectionSet =>
    cases b with
    | index j => exact absurd same (name_ne_digits j)
    | selectionSet => rfl

/-- The pieces between the points are the steps. -/
theorem Path.pieces_text (p : Path) : (p.text.splitOn '.').filter (· ≠ []) = p.segments.map Segment.text := by
  have filled : (p.segments.map Segment.text).filter (· ≠ []) = p.segments.map Segment.text := by
    rw [List.filter_eq_self, List.forall_mem_map]
    intro s _
    simpa using s.text_ne_nil
  by_cases empty : p.segments = []
  · rw [Path.text, empty]
    rfl
  · have pieces : p.text.splitOn '.' = p.segments.map Segment.text := by
      refine List.splitOn_intercalate '.' ?_ (by simpa using empty)
      rw [List.forall_mem_map]
      exact fun s _ => s.point_notMem_text
    rw [pieces, filled]

theorem Path.text_injective : Function.Injective Path.text := by
  intro p q same
  have segments : p.segments.map Segment.text = q.segments.map Segment.text := by
    rw [← p.pieces_text, ← q.pieces_text, same]
  exact congrArg Path.mk (List.map_injective_iff.2 Segment.text_injective segments)

/-! ### Following a path -/

def Selection.node : Selection ν → Node ν
  | .field f => .field f
  | .spread s => .spread s
  | .inlineFragment f => .inlineFragment f

def Definition.node : Definition ν → Node ν
  | .operation o => .operation o
  | .fragment f => .fragment f

namespace Node

/-- A selection as the field, spread or inline fragment that it is. -/
def itself : Node ν → Node ν
  | .selection s => s.node
  | node => node

def isSelectionSet : Node ν → Bool
  | .selectionSet _ => true
  | _ => false

/-- The node one step down: the definition of a document or the selection of a set at a position, or the set of its
owner. -/
def below? : Node ν → Segment → Option (Node ν)
  | .document d, .index i => d.definitions[i]?.map Definition.node
  | .selectionSet set, .index i => set[i]?.map Selection.node
  | .operation o, .selectionSet => some (.selectionSet o.selectionSet)
  | .fragment f, .selectionSet => some (.selectionSet f.selectionSet)
  | .field f, .selectionSet => some (.selectionSet f.selectionSet)
  | .inlineFragment f, .selectionSet => some (.selectionSet f.selectionSet)
  | _, _ => none

/-- The nodes on the way down a path, the first and the last one included. -/
def way? (node : Node ν) : List Segment → Option (List (Node ν))
  | [] => some [node]
  | s :: path => (node.below? s).bind fun next => (next.way? path).map (node :: ·)

/-- The path leads down from one node to another. -/
def Leads (node : Node ν) (path : List Segment) (target : Node ν) : Prop :=
  ∃ way, node.way? path = some way ∧ way.getLast? = some target

variable {node next target : Node ν} {s : Segment} {path : List Segment} {way : List (Node ν)}

theorem leads_nil (node : Node ν) : node.Leads [] node := ⟨[node], rfl, rfl⟩

theorem Leads.cons (step : node.below? s = some next) (h : next.Leads path target) : node.Leads (s :: path) target := by
  obtain ⟨way, rest, last⟩ := h
  refine ⟨node :: way, ?_, ?_⟩
  · rw [way?, step, Option.bind_some, rest, Option.map_some]
  · rw [List.getLast?_cons, last, Option.getD_some]

theorem isSelectionSet_of_below? (step : node.below? s = some next) :
    next.isSelectionSet = decide (s = .selectionSet) := by
  unfold below? at step
  split at step
  · obtain ⟨d, -, rfl⟩ := Option.map_eq_some_iff.1 step
    cases d <;> rfl
  · obtain ⟨s, -, rfl⟩ := Option.map_eq_some_iff.1 step
    cases s <;> rfl
  · cases step
    rfl
  · cases step
    rfl
  · cases step
    rfl
  · cases step
    rfl
  · cases step

/-- On the way down a path as many sets are entered as the path has steps into sets. -/
theorem countP_tail_of_way? (h : node.way? path = some way) :
    way.tail.countP isSelectionSet = path.count .selectionSet := by
  induction path generalizing node way with
  | nil =>
    cases h
    rfl
  | cons s path ih =>
    obtain ⟨next, step, rest⟩ := Option.bind_eq_some_iff.1 h
    obtain ⟨tail, below, rfl⟩ := Option.map_eq_some_iff.1 rest
    have first : ∃ more, tail = next :: more := by
      cases path with
      | nil => exact ⟨[], (Option.some.inj below).symm⟩
      | cons t path =>
        obtain ⟨_, -, rest⟩ := Option.bind_eq_some_iff.1 below
        obtain ⟨more, -, rfl⟩ := Option.map_eq_some_iff.1 rest
        exact ⟨more, rfl⟩
    obtain ⟨more, rfl⟩ := first
    have sets := ih below
    rw [List.tail_cons] at sets
    rw [List.tail_cons, List.countP_cons, sets, List.count_cons, isSelectionSet_of_below? step]
    simp

end Node

/-! ### The nodes that calls are made for -/

mutual

/-- The nodes of a selection in post-order. -/
def Selection.nodes : Selection ν → List (Node ν)
  | .field f => SelectionSet.nodesBelow f.selectionSet ++ [.selectionSet f.selectionSet] ++ [.field f]
  | .spread s => [.spread s]
  | .inlineFragment f =>
    SelectionSet.nodesBelow f.selectionSet ++ [.selectionSet f.selectionSet] ++ [.inlineFragment f]

/-- The nodes of the selections of a set. -/
def SelectionSet.nodesBelow : SelectionSet ν → List (Node ν)
  | [] => []
  | s :: set => s.nodes ++ SelectionSet.nodesBelow set

end

def SelectionSet.nodes (set : SelectionSet ν) : List (Node ν) := SelectionSet.nodesBelow set ++ [.selectionSet set]

def Definition.nodes : Definition ν → List (Node ν)
  | .operation o => SelectionSet.nodes o.selectionSet ++ [.operation o]
  | .fragment f => SelectionSet.nodes f.selectionSet ++ [.fragment f]

def Definition.nodesBelow : List (Definition ν) → List (Node ν)
  | [] => []
  | d :: ds => d.nodes ++ Definition.nodesBelow ds

/-- The nodes that a fold calls its folder for, in order. -/
def Node.nodes : Node ν → List (Node ν)
  | .document d => Definition.nodesBelow d.definitions
  | .operation o => (Definition.operation o).nodes
  | .fragment f => (Definition.fragment f).nodes
  | .selectionSet set => SelectionSet.nodes set
  | .selection s => s.nodes
  | .field f => (Selection.field f).nodes
  | .spread s => (Selection.spread s).nodes
  | .inlineFragment f => (Selection.inlineFragment f).nodes

/-- What a step is shown of the node: the node itself, but for what the folder has made of the nodes below it.  An owner
may have another set, and a set another selection in the place of each of its own. -/
def Node.ShownAs : Node ν → (callback : Callback) → callback.Node ν → Prop
  | .operation o, .operation, shown => shown = { o with selectionSet := shown.selectionSet }
  | .fragment f, .fragment, shown => shown = { f with selectionSet := shown.selectionSet }
  | .selectionSet set, .selectionSet, shown => List.length shown = List.length set
  | .field f, .field, shown => shown = { f with selectionSet := shown.selectionSet }
  | .inlineFragment f, .inlineFragment, shown => shown = { f with selectionSet := shown.selectionSet }
  | .spread s, .fragmentSpread, shown => shown = s
  | _, _, _ => False

/-- The exchange is for a node below another that stands at a place, and its path leads there. -/
def Node.Stands (node : Node ν) (visit : Visit) (x : Exchange ν) (target : Node ν) : Prop :=
  target.ShownAs x.callback x.node ∧
    ∃ path, x.visit.path.segments = visit.path.segments ++ path ∧ node.Leads path target

theorem Node.stands_self {node : Node ν} {visit : Visit} {callback : Callback} {shown : callback.Node ν}
    (h : node.ShownAs callback shown) (new : callback.Node ν) :
    node.Stands visit (callback.exchange visit shown new) node :=
  ⟨h, [], (List.append_nil _).symm, node.leads_nil⟩

/-- What stands below the next node stands below the node. -/
theorem Node.Stands.of_below {node next target : Node ν} {s : Segment} {visit below : Visit} {x : Exchange ν}
    (step : node.below? s = some next) (place : below.path = visit.path.push s) (h : next.Stands below x target) :
    node.Stands visit x target := by
  obtain ⟨shown, path, segments, leads⟩ := h
  refine ⟨shown, s :: path, ?_, leads.cons step⟩
  rw [segments, place, Path.push, List.append_assoc, List.singleton_append]

theorem SelectionSet.RebuiltFrom.length_eq {visit : Visit} {i : Nat} {set new : SelectionSet ν}
    {xs : List (Exchange ν)} (h : SelectionSet.RebuiltFrom visit i set xs new) : new.length = set.length := by
  induction set generalizing i xs new with
  | nil =>
    cases h
    rfl
  | cons s set ih =>
    cases h with
    | cons _ rest => rw [List.length_cons, List.length_cons, ih rest]

private theorem forall₂_concat {α β : Type} {R : α → β → Prop} {as : List α} {bs : List β} {a : α} {b : β}
    (front : List.Forall₂ R as bs) (last : R a b) : List.Forall₂ R (as ++ [a]) (bs ++ [b]) :=
  List.rel_append front (.cons last .nil)

-- by recursion on the derivations; each rule adds the exchange of one node behind those of the nodes below it
mutual

theorem Selection.Rebuilt.forall₂_stands : ∀ {visit : Visit} {s new : Selection ν} {xs : List (Exchange ν)},
    s.Rebuilt visit xs new → List.Forall₂ (s.node.Stands visit) xs s.nodes
  | _, .field f, _, _, .field set => by
    have step : (Node.field f).below? .selectionSet = some (.selectionSet f.selectionSet) := rfl
    have below := (SelectionSet.Rebuilt.forall₂_stands set).imp fun _ _ h => Node.Stands.of_below step rfl h
    refine forall₂_concat below (Node.stands_self ?_ _)
    rfl
  | _, _, _, _, .spread => by
    refine forall₂_concat .nil (Node.stands_self ?_ _)
    rfl
  | _, .inlineFragment f, _, _, .inlineFragment set => by
    have step : (Node.inlineFragment f).below? .selectionSet = some (.selectionSet f.selectionSet) := rfl
    have below := (SelectionSet.Rebuilt.forall₂_stands set).imp fun _ _ h => Node.Stands.of_below step rfl h
    refine forall₂_concat below (Node.stands_self ?_ _)
    rfl

theorem SelectionSet.Rebuilt.forall₂_stands : ∀ {visit : Visit} {set new : SelectionSet ν} {xs : List (Exchange ν)},
    SelectionSet.Rebuilt visit set xs new → List.Forall₂ ((Node.selectionSet set).Stands visit) xs set.nodes
  | _, _, _, _, .selections selections => by
    have below := SelectionSet.RebuiltFrom.forall₂_stands selections fun _ => by rw [Nat.zero_add]
    refine forall₂_concat below (Node.stands_self ?_ _)
    exact selections.length_eq

theorem SelectionSet.RebuiltFrom.forall₂_stands :
    ∀ {visit : Visit} {i : Nat} {set new : SelectionSet ν} {xs : List (Exchange ν)} {whole : SelectionSet ν},
      SelectionSet.RebuiltFrom visit i set xs new → (∀ j, whole[i + j]? = set[j]?) →
        List.Forall₂ ((Node.selectionSet whole).Stands visit) xs set.nodesBelow
  | _, _, _, _, _, _, .nil, _ => .nil
  | _, i, s :: _, _, _, whole, .cons first rest, at_i => by
    have step : (Node.selectionSet whole).below? (.index i) = some s.node := by
      rw [Node.below?, ← Nat.add_zero i, at_i 0]
      rfl
    have head := (Selection.Rebuilt.forall₂_stands first).imp fun _ _ h => Node.Stands.of_below step rfl h
    refine List.rel_append head (SelectionSet.RebuiltFrom.forall₂_stands rest fun j => ?_)
    rw [Nat.add_assoc, Nat.add_comm 1 j, at_i (j + 1), List.getElem?_cons_succ]

end

section

variable {visit : Visit} {xs : List (Exchange ν)}

theorem Definition.Rebuilt.forall₂_stands {d new : Definition ν} (h : d.Rebuilt visit xs new) :
    List.Forall₂ (d.node.Stands visit) xs d.nodes := by
  cases h with
  | @operation o _ _ _ set =>
    have step : (Node.operation o).below? .selectionSet = some (.selectionSet o.selectionSet) := rfl
    have below := set.forall₂_stands.imp fun _ _ h => Node.Stands.of_below step rfl h
    refine forall₂_concat below (Node.stands_self ?_ _)
    rfl
  | @fragment f _ _ _ set =>
    have step : (Node.fragment f).below? .selectionSet = some (.selectionSet f.selectionSet) := rfl
    have below := set.forall₂_stands.imp fun _ _ h => Node.Stands.of_below step rfl h
    refine forall₂_concat below (Node.stands_self ?_ _)
    rfl

theorem Definition.RebuiltFrom.forall₂_stands {i : Nat} {ds new : List (Definition ν)} {whole : Document ν}
    (h : Definition.RebuiltFrom visit i ds xs new) (at_i : ∀ j, whole.definitions[i + j]? = ds[j]?) :
    List.Forall₂ ((Node.document whole).Stands visit) xs (Definition.nodesBelow ds) := by
  induction h with
  | nil => exact .nil
  | @cons i d _ ds _ _ _ first _ ih =>
    have step : (Node.document whole).below? (.index i) = some d.node := by
      rw [Node.below?, ← Nat.add_zero i, at_i 0]
      rfl
    have head := first.forall₂_stands.imp fun _ _ h => Node.Stands.of_below step rfl h
    refine List.rel_append head (ih fun j => ?_)
    rw [Nat.add_assoc, Nat.add_comm 1 j, at_i (j + 1), List.getElem?_cons_succ]

/-- The exchanges that rebuild a node are those for the nodes of its tree, and their paths lead there. -/
theorem Node.Rebuilt.forall₂_stands {node new : Node ν} (h : node.Rebuilt visit xs new) :
    List.Forall₂ (node.itself.Stands visit) xs node.nodes := by
  unfold Node.Rebuilt at h
  split at h
  · exact Definition.RebuiltFrom.forall₂_stands h fun j => by rw [Nat.zero_add]
  · exact Definition.Rebuilt.forall₂_stands h
  · exact Definition.Rebuilt.forall₂_stands h
  · exact SelectionSet.Rebuilt.forall₂_stands h
  · exact Selection.Rebuilt.forall₂_stands h
  · exact Selection.Rebuilt.forall₂_stands h
  · exact Selection.Rebuilt.forall₂_stands h
  · exact Selection.Rebuilt.forall₂_stands h
  · exact h.elim

end

/-! ### Folds -/

/-- With a folder that gives a node at each step, no two calls of a fold have paths with the same text, and a text tells
the steps of its path.  The calls are made for the nodes of the tree in post-order.  Following the path of a call down
from the node that the fold starts at leads to the node that the call is made for, through as many selection sets as the
depth of the path says. -/
theorem Node.calls_identified {F : Folder ν σ} (succeeds : F.Succeeds) (node : Node ν) (s : σ) :
    ((node.calls F s).map (·.visit.path.text)).Nodup ∧ Function.Injective Path.text ∧
      List.Forall₂ (fun call target => target.ShownAs call.callback call.node ∧
        ∃ way, node.itself.way? call.visit.path.segments = some way ∧ way.getLast? = some target ∧
          call.visit.path.depth = way.tail.countP Node.isSelectionSet) (node.calls F s) node.nodes := by
  obtain ⟨exchanges, result, t, reaches, answers⟩ := Dialogue.exists_reaches_done succeeds (node.dialogue {}) s
  have rebuilt := Node.rebuilt_of_reaches reaches
  rw [Node.calls_of_reaches reaches answers]
  refine ⟨?_, Path.text_injective, ?_⟩
  · have places := (node.separate_postOrder {}).nodup
    rw [← rebuilt.map_position, List.map_map] at places
    have texts := places.map Path.text_injective
    rw [List.map_map] at texts
    rw [List.map_map]
    exact texts
  · rw [List.forall₂_map_left_iff]
    refine rebuilt.forall₂_stands.imp ?_
    rintro x target ⟨shown, path, segments, way, at_path, last⟩
    rw [List.nil_append] at segments
    refine ⟨shown, way, ?_, last, ?_⟩
    · rw [segments]
      exact at_path
    · rw [Path.depth, segments, Node.countP_tail_of_way? at_path]

/-- The inline fragment of eleven times the same spread. -/
def Node.elevenSpreads : Node Numeral := .inlineFragment ⟨none, [], List.replicate 11 (.spread ⟨"F", []⟩)⟩

/-- Nodes that are equal still have different texts, the last of them one with a position of two digits. -/
theorem Node.calls_identified_elevenSpreads :
    (Folder.twice (ν := Numeral)).Succeeds ∧
      (Node.elevenSpreads.calls Folder.twice 0).map (String.ofList ·.visit.path.text) =
        ["selectionSet.0", "selectionSet.1", "selectionSet.2", "selectionSet.3", "selectionSet.4", "selectionSet.5",
          "selectionSet.6", "selectionSet.7", "selectionSet.8", "selectionSet.9", "selectionSet.10", "selectionSet",
          ""] ∧
      ((Node.elevenSpreads.calls Folder.twice 0).map (·.visit.path.text)).Nodup ∧
      List.Forall₂ (fun call target => ∃ way, Node.elevenSpreads.way? call.visit.path.segments = some way ∧
          way.getLast? = some target ∧ call.visit.path.depth = way.tail.countP Node.isSelectionSet)
        (Node.elevenSpreads.calls Folder.twice 0)
        (List.replicate 11 (.spread ⟨"F", []⟩) ++
          [.selectionSet (List.replicate 11 (.spread ⟨"F", []⟩)), Node.elevenSpreads]) := by
  obtain ⟨nodup, -, leads⟩ := Node.calls_identified Folder.twice_succeeds Node.elevenSpreads 0
  exact ⟨Folder.twice_succeeds, by decide +kernel, nodup, leads.imp fun _ _ h => h.2⟩

end PersistedQuery
