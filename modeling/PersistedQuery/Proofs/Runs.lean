import PersistedQuery.Fold.Folder
import PersistedQuery.Log

/-!
# Runs that succeed

A run that succeeds is put together from runs that succeed.  For a fold this includes the way down and back: the place
that it has reached is the same before and after (`FoldM.Gives`).  The way back is taken after an error too
(`FoldM.atIndex_back`, `FoldM.inSelectionSet_back`).  A run that logs only adds to what was logged before
(`LogM.Yields`).
-/

namespace PersistedQuery

/-! ### Folds -/

namespace FoldM

variable {ν σ α β : Type} {x : FoldM σ α} {visit : Visit} {s t u : σ} {a : α}

/-- At this place and in the state `s` the fold gives `a`, and it comes back to the place in the state `t`. -/
def Gives (x : FoldM σ α) (visit : Visit) (s : σ) (a : α) (t : σ) : Prop := x (visit, s) = (.ok a, visit, t)

theorem gives_pure (a : α) (visit : Visit) (s : σ) : Gives (pure a) visit s a s := rfl

theorem Gives.bind {f : α → FoldM σ β} {b : β} (hx : Gives x visit s a t) (hf : Gives (f a) visit t b u) :
    Gives (x >>= f) visit s b u := by
  unfold Gives at *
  rw [bind_apply, hx]
  exact hf

theorem Gives.map (f : α → β) (hx : Gives x visit s a t) : Gives (f <$> x) visit s (f a) t := by
  unfold Gives at *
  rw [map_apply, hx]
  rfl

/-- A fold that comes back to the child, be it with an error, comes back to the node. -/
theorem atIndex_back {i : Nat} {outcome : Except Error α}
    (hx : x (⟨visit.path.push (.index i), visit.parent⟩, s) =
      (outcome, ⟨visit.path.push (.index i), visit.parent⟩, t)) :
    atIndex i x (visit, s) = (outcome, visit, t) := by
  simp [atIndex, hx]

/-- A fold that comes back to the set, be it with an error, comes back to its owner. -/
theorem inSelectionSet_back {owner : Owner} {outcome : Except Error α}
    (hx : x (⟨visit.path.push .selectionSet, owner⟩, s) = (outcome, ⟨visit.path.push .selectionSet, owner⟩, t)) :
    inSelectionSet owner x (visit, s) = (outcome, visit, t) := by
  simp [inSelectionSet, hx]

theorem Gives.atIndex {i : Nat} (hx : Gives x ⟨visit.path.push (.index i), visit.parent⟩ s a t) :
    Gives (atIndex i x) visit s a t :=
  atIndex_back hx

theorem Gives.inSelectionSet {owner : Owner} (hx : Gives x ⟨visit.path.push .selectionSet, owner⟩ s a t) :
    Gives (inSelectionSet owner x) visit s a t :=
  inSelectionSet_back hx

/-- A step may be given a copy of its node. -/
theorem gives_call {F : Folder ν σ} {callback : Callback} {copy node result : callback.Node ν} (copies : copy = node)
    (h : F callback node visit s = (.ok result, t)) : Gives (call F callback copy) visit s result t := by
  subst copies
  unfold Gives call
  simp [h]

theorem Gives.start (hx : Gives x {} s a t) : x.start s = (.ok a, t) := by
  unfold Gives at hx
  unfold FoldM.start
  rw [hx]

end FoldM

/-! ### Logs -/

namespace LogM

variable {α β : Type} {x : LogM α} {a : α} {events more : List Event}

/-- Whatever was logged before, the run gives `a` and adds these events to the log. -/
def Yields (x : LogM α) (a : α) (events : List Event) : Prop :=
  ∀ before : List Event, x before = (.ok a, before ++ events)

theorem yields_pure (a : α) : Yields (pure a) a [] := by
  intro before
  rw [List.append_nil]
  rfl

theorem yields_log (e : Event) : Yields (log e) () [e] := fun _ => rfl

theorem Yields.bind {f : α → LogM β} {b : β} (hx : Yields x a events) (hf : Yields (f a) b more) :
    Yields (x >>= f) b (events ++ more) := by
  intro before
  have step : (x >>= f) before = f a (before ++ events) := by
    change (match x before with | (r, s) => ExceptT.bindCont f r s) = _
    rw [hx before]
    rfl
  rw [step, hf, List.append_assoc]

theorem Yields.map (f : α → β) (hx : Yields x a events) : Yields (f <$> x) (f a) events := by
  have whole : (x >>= fun a => pure (f a)).Yields (f a) (events ++ []) := hx.bind (yields_pure (f a))
  rw [List.append_nil] at whole
  rw [← bind_pure_comp]
  exact whole

end LogM

end PersistedQuery
