import PersistedQuery.Proofs.Fold.Copying
import PersistedQuery.Proofs.Fold.Places

/-!
# The place after a fold

A fold threads one place through all of its steps.  Each way down is taken back on the way up, also by an error, so the
fold ends at the place where it began, and in between the folder is only shown places at or below that one.

* `Node.prefix_postOrder_of_calls`: whether or not the folder fails, its calls are the first ones of the enumeration.
* `Node.foldM_restores`: the place at the end, and the paths in between.
-/

namespace PersistedQuery

variable {ν σ α : Type}

/-- Noting the calls changes nothing else, also where a call fails, and the calls are the first ones on a way on which
the dialogue comes to its end. -/
theorem Dialogue.exists_run_recording (F : Folder ν σ) (d : Dialogue ν α) (calls : List (Call ν)) (s : σ) :
    ∃ made exchanges a, d.run F.recording (calls, s) = ((d.run F s).1, calls ++ made, (d.run F s).2) ∧
      d.Reaches exchanges (.done a) ∧ made <+: exchanges.map (·.toCall) := by
  induction d generalizing calls s with
  | done a => exact ⟨[], [], a, by rw [List.append_nil]; rfl, .refl, List.nil_prefix⟩
  | ask call next ih =>
    cases step : F call.callback call.node call.visit s with
    | mk outcome t =>
      have recorded : F.recording call.callback call.node call.visit (calls, s) = (outcome, calls ++ [call], t) := by
        simp [Folder.recording, step]
      cases outcome with
      | ok result =>
        obtain ⟨made, exchanges, a, run, reaches, first⟩ := ih result (calls ++ [call]) t
        refine ⟨call :: made, ⟨call, result⟩ :: exchanges, a, ?_, .step reaches, ?_⟩
        · simp only [Dialogue.run, recorded, step, run, List.append_assoc, List.singleton_append]
        · rw [List.map_cons]
          exact (List.prefix_cons_inj call).2 first
      | error e =>
        -- the way goes on as if the step had given its node back
        obtain ⟨exchanges, a, _, reaches, -⟩ :=
          exists_reaches_done Folder.keepsNodes_keep.succeeds (next call.node) ()
        refine ⟨[call], ⟨call, call.node⟩ :: exchanges, a, ?_, .step reaches, ?_⟩
        · simp only [Dialogue.run, recorded, step]
        · rw [List.map_cons]
          exact (List.prefix_cons_inj call).2 List.nil_prefix

/-- Calls that are the first ones on a way through the dialogue of a node are the first ones of its enumeration. -/
theorem Node.prefix_postOrder_of_calls {node result : Node ν} {visit : Visit} {made : List (Call ν)}
    {exchanges : List (Exchange ν)} (reaches : (node.dialogue visit).Reaches exchanges (.done result))
    (first : made <+: exchanges.map (·.toCall)) : made.map (·.position) <+: node.postOrder visit := by
  have positions := (Node.rebuilt_of_reaches reaches).map_position
  have calls : (exchanges.map (·.toCall)).map (·.position) = node.postOrder visit := by
    rw [List.map_map]
    exact positions
  rw [← calls]
  exact first.map _

/-- From any place and with any folder, which may fail at any of its calls, a fold ends at the place where it began: at
the same path, under the same owner.  Each path that the folder is shown extends that path. -/
theorem Node.foldM_restores (F : Folder ν σ) (node : Node ν) (visit : Visit) (s : σ) :
    ∃ outcome made t,
      node.foldM F (visit, s) = (outcome, visit, t) ∧
        node.foldM F.recording (visit, [], s) = (outcome, visit, made, t) ∧
          ∀ call ∈ made, visit.path.Extends call.visit.path := by
  obtain ⟨made, exchanges, result, run, reaches, first⟩ :=
    Dialogue.exists_run_recording F (node.dialogue visit) [] s
  refine ⟨_, made, _, node.follows F visit s, ?_, ?_⟩
  · rw [node.follows F.recording visit ([], s), run]
    rfl
  · intro call mem
    have position : call.position ∈ node.postOrder visit :=
      (Node.prefix_postOrder_of_calls reaches first).subset (List.mem_map_of_mem mem)
    exact (node.separate_postOrder visit).inScope _ position

end PersistedQuery
