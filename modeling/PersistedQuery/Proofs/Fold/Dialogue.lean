import PersistedQuery.Fold.Node

/-!
# Dialogues

A fold depends on its folder only through the nodes that it gets back from it.  A `Dialogue` is a fold without its
folder: either it has ended, or it makes a call and goes on with the node that it gets back.

What a dialogue and a folder exchange decides how the dialogue goes on (`Dialogue.Reaches`) and in which state it leaves
the folder (`Folder.Answers`).  So a run can be cut after any exchange: what comes after it is a run of the rest
(`Dialogue.run_of_reaches`).
-/

namespace PersistedQuery

/-- A fold that ends with a value of type `α`, or calls its folder and goes on with the node that the folder gives. -/
inductive Dialogue (ν α : Type) where
  | done (a : α)
  | ask (call : Call ν) (next : call.callback.Node ν → Dialogue ν α)

/-- A call and the node that the folder gave. -/
structure Exchange (ν : Type) extends Call ν where
  result : callback.Node ν

variable {ν σ α β : Type}

namespace Dialogue

/-- A single call. -/
def call (callback : Callback) (node : callback.Node ν) (visit : Visit) : Dialogue ν (callback.Node ν) :=
  .ask ⟨callback, node, visit⟩ .done

def bind : Dialogue ν α → (α → Dialogue ν β) → Dialogue ν β
  | .done a, f => f a
  | .ask call next, f => .ask call fun result => (next result).bind f

def map (f : α → β) (d : Dialogue ν α) : Dialogue ν β := d.bind fun a => .done (f a)

/-- Carries a dialogue on with a folder in a state.  An error of the folder ends it. -/
def run (F : Folder ν σ) : Dialogue ν α → σ → Except Error α × σ
  | .done a, s => (.ok a, s)
  | .ask call next, s =>
    match F call.callback call.node call.visit s with
    | (.ok result, t) => (next result).run F t
    | (.error e, t) => (.error e, t)

theorem run_bind (F : Folder ν σ) (d : Dialogue ν α) (f : α → Dialogue ν β) (s : σ) :
    (d.bind f).run F s =
      match d.run F s with
      | (.ok a, t) => (f a).run F t
      | (.error e, t) => (.error e, t) := by
  induction d generalizing s with
  | done a => rfl
  | ask call next ih =>
    simp only [bind, run]
    split
    · rename_i result t _
      exact ih result t
    · rfl

/-- The first dialogue goes on as the second one after these exchanges. -/
inductive Reaches : Dialogue ν α → List (Exchange ν) → Dialogue ν α → Prop where
  | refl {d : Dialogue ν α} : Reaches d [] d
  | step {call : Call ν} {next : call.callback.Node ν → Dialogue ν α} {result : call.callback.Node ν}
      {exchanges : List (Exchange ν)} {e : Dialogue ν α} :
      Reaches (next result) exchanges e → Reaches (.ask call next) (⟨call, result⟩ :: exchanges) e

variable {d e : Dialogue ν α} {xs ys : List (Exchange ν)} {a : α} {b : β}

/-- A run that has reached some point can be cut there. -/
theorem Reaches.split (h : d.Reaches (xs ++ ys) e) : ∃ between, d.Reaches xs between ∧ between.Reaches ys e := by
  induction xs generalizing d with
  | nil => exact ⟨d, .refl, h⟩
  | cons x xs ih =>
    cases h with
    | step h =>
      obtain ⟨between, first, second⟩ := ih h
      exact ⟨between, .step first, second⟩

theorem Reaches.map (f : α → β) (h : d.Reaches xs e) : (d.map f).Reaches xs (e.map f) := by
  induction h with
  | refl => exact .refl
  | step _ ih => exact .step ih

/-- A dialogue that ends has ended its first part before. -/
theorem Reaches.of_bind {f : α → Dialogue ν β} (h : (d.bind f).Reaches xs (.done b)) :
    ∃ ys zs a, xs = ys ++ zs ∧ d.Reaches ys (.done a) ∧ (f a).Reaches zs (.done b) := by
  induction d generalizing xs with
  | done a => exact ⟨[], xs, a, rfl, .refl, h⟩
  | ask call next ih =>
    cases h with
    | step h =>
      obtain ⟨ys, zs, a, rfl, first, second⟩ := ih _ h
      exact ⟨_ :: ys, zs, a, rfl, .step first, second⟩

theorem Reaches.of_map {f : α → β} (h : (d.map f).Reaches xs (.done b)) : ∃ a, d.Reaches xs (.done a) ∧ f a = b := by
  obtain ⟨ys, zs, a, rfl, first, second⟩ := Reaches.of_bind h
  cases second
  exact ⟨a, by simpa using first, rfl⟩

end Dialogue

/-! ### The folder's part -/

namespace Folder

/-- From the state `s` the folder gives these results, and ends in the state `t`. -/
def Answers (F : Folder ν σ) : σ → List (Exchange ν) → σ → Prop
  | s, [], t => s = t
  | s, x :: xs, t => ∃ u, F x.callback x.node x.visit s = (.ok x.result, u) ∧ F.Answers u xs t

/-- Each step gives a node, whatever it receives. -/
def Succeeds (F : Folder ν σ) : Prop :=
  ∀ callback node visit s, ∃ result t, F callback node visit s = (.ok result, t)

variable {F : Folder ν σ} {s t : σ} {xs ys : List (Exchange ν)}

theorem Answers.split (h : F.Answers s (xs ++ ys) t) : ∃ u, F.Answers s xs u ∧ F.Answers u ys t := by
  induction xs generalizing s with
  | nil => exact ⟨s, rfl, h⟩
  | cons x xs ih =>
    obtain ⟨v, first, rest⟩ := h
    obtain ⟨u, before, after⟩ := ih rest
    exact ⟨u, ⟨v, first, before⟩, after⟩

/-- A folder that notes its calls answers as it does without. -/
theorem Answers.recording (h : F.Answers s xs t) (calls : List (Call ν)) :
    F.recording.Answers (calls, s) xs (calls ++ xs.map (·.toCall), t) := by
  induction xs generalizing s calls with
  | nil =>
    cases h
    simp [Answers]
  | cons x xs ih =>
    obtain ⟨u, first, rest⟩ := h
    have step : F.recording x.callback x.node x.visit (calls, s) = (.ok x.result, calls ++ [x.toCall], u) := by
      simp [Folder.recording, first]
    have tail := ih rest (calls ++ [x.toCall])
    rw [List.append_assoc] at tail
    exact ⟨_, step, tail⟩

end Folder

namespace Dialogue

variable {F : Folder ν σ} {d e : Dialogue ν α} {s t : σ} {xs : List (Exchange ν)}

/-- The exchanges that a run begins with can be left out. -/
theorem run_of_reaches (reaches : d.Reaches xs e) (answers : F.Answers s xs t) : d.run F s = e.run F t := by
  induction reaches generalizing s with
  | refl =>
    cases answers
    rfl
  | step _ ih =>
    obtain ⟨u, first, rest⟩ := answers
    rw [run, first]
    exact ih rest

/-- With a folder whose steps all succeed, a dialogue comes to its end. -/
theorem exists_reaches_done (succeeds : F.Succeeds) (d : Dialogue ν α) (s : σ) :
    ∃ xs a t, d.Reaches xs (.done a) ∧ F.Answers s xs t := by
  induction d generalizing s with
  | done a => exact ⟨[], a, s, .refl, rfl⟩
  | ask call next ih =>
    obtain ⟨result, u, first⟩ := succeeds call.callback call.node call.visit s
    obtain ⟨xs, a, t, reaches, answers⟩ := ih result u
    exact ⟨⟨call, result⟩ :: xs, a, t, .step reaches, u, first, answers⟩

end Dialogue

end PersistedQuery
