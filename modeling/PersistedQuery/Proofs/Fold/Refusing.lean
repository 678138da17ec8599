import PersistedQuery.Proofs.Fold.PostOrder

/-!
# Folders that refuse

A folder that answers some calls with an error receives the same calls as the folder that answers them all, up to the
first one that it refuses.  There the fold ends, with the error of that call.

* `Node.fold_refusing`: whether a fold fails, which calls the folder receives and what the fold gives, in terms of the
  calls of the folder that does not refuse.
-/

namespace PersistedQuery

variable {ν σ α : Type}

/-- The calls that a folder receives in a fold. -/
def Node.calls (F : Folder ν σ) (node : Node ν) (s : σ) : List (Call ν) := (node.fold F.recording ([], s)).2.1

/-- The folder that answers some calls with an error instead.  The error may depend on the state, and change it. -/
def Folder.refusing (F : Folder ν σ) (refuses : Call ν → Bool) (error : Call ν → σ → Error × σ) : Folder ν σ :=
  fun callback node visit s =>
    if refuses ⟨callback, node, visit⟩ then
      let (e, t) := error ⟨callback, node, visit⟩ s
      (.error e, t)
    else
      F callback node visit s

variable {F : Folder ν σ} {refuses : Call ν → Bool} {error : Call ν → σ → Error × σ} {s t : σ}
  {xs ys : List (Exchange ν)}

/-- The calls that are not refused are answered as before. -/
theorem Folder.Answers.refusing (h : F.Answers s xs t) (allowed : ∀ x ∈ xs, refuses x.toCall = false) :
    (F.refusing refuses error).Answers s xs t := by
  induction xs generalizing s with
  | nil => exact h
  | cons x xs ih =>
    rw [List.forall_mem_cons] at allowed
    obtain ⟨u, first, rest⟩ := h
    refine ⟨u, ?_, ih rest allowed.2⟩
    simpa [Folder.refusing, allowed.1] using first

/-- Before each of its exchanges a dialogue asks for it. -/
theorem Dialogue.Reaches.ask {d e : Dialogue ν α} {x : Exchange ν} (h : d.Reaches (xs ++ x :: ys) e) :
    ∃ next, d.Reaches xs (.ask x.toCall next) := by
  obtain ⟨between, before, after⟩ := h.split
  cases after
  exact ⟨_, before⟩

theorem Dialogue.run_refusing_ask {call : Call ν} {next : call.callback.Node ν → Dialogue ν α}
    (refused : refuses call = true) (s : σ) :
    (Dialogue.ask call next).run (F.refusing refuses error) s = (.error (error call s).1, (error call s).2) := by
  simp [Dialogue.run, Folder.refusing, refused]

theorem Dialogue.run_recording_refusing_ask {call : Call ν} {next : call.callback.Node ν → Dialogue ν α}
    (refused : refuses call = true) (calls : List (Call ν)) (s : σ) :
    (Dialogue.ask call next).run (F.refusing refuses error).recording (calls, s) =
      (.error (error call s).1, calls ++ [call], (error call s).2) := by
  simp [Dialogue.run, Folder.recording, Folder.refusing, refused]

/-! ### Folds -/

theorem Node.calls_of_reaches {node result : Node ν} (reaches : (node.dialogue {}).Reaches xs (.done result))
    (answers : F.Answers s xs t) : node.calls F s = xs.map (·.toCall) := by
  rw [Node.calls, Node.fold_of_reaches reaches (answers.recording [])]
  rfl

/-- Where no call is refused, the fold is the same. -/
private theorem Node.fold_refusing_of_none (succeeds : F.Succeeds) {node : Node ν}
    (allowed : ∀ call ∈ node.calls F s, refuses call = false) :
    node.fold (F.refusing refuses error) s = node.fold F s ∧
      node.calls (F.refusing refuses error) s = node.calls F s := by
  obtain ⟨xs, result, t, reaches, answers⟩ := Dialogue.exists_reaches_done succeeds (node.dialogue {}) s
  rw [Node.calls_of_reaches reaches answers, List.forall_mem_map] at allowed
  have answers' : (F.refusing refuses error).Answers s xs t := answers.refusing allowed
  constructor
  · rw [Node.fold_of_reaches reaches answers', Node.fold_of_reaches reaches answers]
  · rw [Node.calls_of_reaches reaches answers', Node.calls_of_reaches reaches answers]

/-- The fold ends at the first call that is refused. -/
private theorem Node.fold_refusing_of_first (succeeds : F.Succeeds) (error : Call ν → σ → Error × σ) {node : Node ν}
    {before after : List (Call ν)} {call : Call ν} (calls : node.calls F s = before ++ call :: after)
    (allowed : ∀ c ∈ before, refuses c = false) (refused : refuses call = true) :
    ∃ exchanges u, exchanges.map (·.toCall) = before ∧ F.Answers s exchanges u ∧
      node.fold (F.refusing refuses error) s = (.error (error call u).1, (error call u).2) ∧
        node.calls (F.refusing refuses error) s = before ++ [call] := by
  obtain ⟨xs, result, t, reaches, answers⟩ := Dialogue.exists_reaches_done succeeds (node.dialogue {}) s
  rw [Node.calls_of_reaches reaches answers] at calls
  obtain ⟨ys, zs, rfl, rfl, tail⟩ := List.map_eq_append_iff.mp calls
  obtain ⟨x, zs, rfl, rfl, -⟩ := List.map_eq_cons_iff.mp tail
  obtain ⟨next, asks⟩ := reaches.ask
  obtain ⟨u, first, -⟩ := answers.split
  rw [List.forall_mem_map] at allowed
  have first' : (F.refusing refuses error).Answers s ys u := first.refusing allowed
  refine ⟨ys, u, rfl, first, ?_, ?_⟩
  · rw [node.fold_eq_run, Dialogue.run_of_reaches asks first', Dialogue.run_refusing_ask refused]
  · rw [Node.calls, node.fold_eq_run, Dialogue.run_of_reaches asks (first'.recording []),
      Dialogue.run_recording_refusing_ask refused]
    rfl

/-- A fold with a folder that refuses fails if and only if a call of the folder that does not refuse is refused.  Then
it ends at the first such call: the folder receives the calls up to it and no more, and the fold gives its error.
Otherwise the fold and its calls are those of the folder that does not refuse. -/
theorem Node.fold_refusing (succeeds : F.Succeeds) (refuses : Call ν → Bool) (error : Call ν → σ → Error × σ)
    (node : Node ν) (s : σ) :
    ((∃ e, (node.fold (F.refusing refuses error) s).1 = .error e) ↔ ∃ call ∈ node.calls F s, refuses call = true) ∧
      (∀ before call after, node.calls F s = before ++ call :: after → (∀ c ∈ before, refuses c = false) →
        refuses call = true →
          ∃ exchanges u, exchanges.map (·.toCall) = before ∧ F.Answers s exchanges u ∧
            node.fold (F.refusing refuses error) s = (.error (error call u).1, (error call u).2) ∧
              node.calls (F.refusing refuses error) s = before ++ [call]) ∧
        ((∀ call ∈ node.calls F s, refuses call = false) →
          node.fold (F.refusing refuses error) s = node.fold F s ∧
            node.calls (F.refusing refuses error) s = node.calls F s) := by
  refine ⟨⟨?_, ?_⟩, fun _ _ _ => Node.fold_refusing_of_first succeeds error, Node.fold_refusing_of_none succeeds⟩
  · rintro ⟨e, fails⟩
    refine Decidable.byContradiction fun not_refused => ?_
    have allowed : ∀ call ∈ node.calls F s, refuses call = false := by simpa using not_refused
    obtain ⟨xs, result, t, reaches, answers⟩ := Dialogue.exists_reaches_done succeeds (node.dialogue {}) s
    rw [(Node.fold_refusing_of_none succeeds allowed).1, Node.fold_of_reaches reaches answers] at fails
    cases fails
  · intro exists_refused
    obtain ⟨call, found⟩ := Option.isSome_iff_exists.mp (List.find?_isSome.mpr exists_refused)
    obtain ⟨refused, before, after, calls, allowed⟩ := List.find?_eq_some_iff_append.mp found
    obtain ⟨-, u, -, -, fold, -⟩ := Node.fold_refusing_of_first succeeds error calls (by simpa using allowed) refused
    exact ⟨_, by rw [fold]⟩

/-- The folder of `Folder.twice` that refuses spreads. -/
def Folder.spreadless : Folder ν Nat :=
  Folder.twice.refusing (fun call => call.callback = .fragmentSpread) fun call n =>
    ({ message := "Unexpected spread", context := String.ofList call.visit.path.text }, n)

/-- The operation `{ b ...F c }`. -/
def Node.spreadBetween : Node Numeral :=
  .operation (.shorthand [.field (.leaf "b"), .spread ⟨"F", []⟩, .field (.leaf "c")])

/-- The field before the spread is the last node that is folded. -/
theorem Node.fold_refusing_spread :
    (Folder.twice (ν := Numeral)).Succeeds ∧
      (Node.spreadBetween.fold Folder.spreadless 0).1 =
        .error { message := "Unexpected spread", context := "selectionSet.1" } ∧
      Node.spreadBetween.calls Folder.spreadless 0 =
        [⟨.selectionSet, [], ⟨⟨[.selectionSet, .index 0, .selectionSet]⟩, .field⟩⟩,
          ⟨.field, .leaf "b", ⟨⟨[.selectionSet, .index 0]⟩, .operation⟩⟩,
          ⟨.fragmentSpread, ⟨"F", []⟩, ⟨⟨[.selectionSet, .index 1]⟩, .operation⟩⟩] := by
  obtain ⟨-, stops, -⟩ := Node.fold_refusing Folder.twice_succeeds (fun call => call.callback = .fragmentSpread)
    (fun call n => ({ message := "Unexpected spread", context := String.ofList call.visit.path.text }, n))
    Node.spreadBetween 0
  obtain ⟨exchanges, u, -, -, fold, calls⟩ := stops
    [⟨.selectionSet, [], ⟨⟨[.selectionSet, .index 0, .selectionSet]⟩, .field⟩⟩,
      ⟨.field, .leaf "b", ⟨⟨[.selectionSet, .index 0]⟩, .operation⟩⟩]
    ⟨.fragmentSpread, ⟨"F", []⟩, ⟨⟨[.selectionSet, .index 1]⟩, .operation⟩⟩ _ rfl (by simp) rfl
  exact ⟨Folder.twice_succeeds, congrArg Prod.fst fold, calls⟩

end PersistedQuery
