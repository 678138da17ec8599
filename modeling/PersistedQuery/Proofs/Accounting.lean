import PersistedQuery.Proofs.Recording
import PersistedQuery.Proofs.Undoing

/-!
# The log accounts for the manifest

Each call of a builder tells in its last line what has become of what it was given: it names the hash of the entry that
the call returns, or says why there is none (`Builder.Accounted`).  No line between tells of an entry, so the hashes
that the log of a run tells are those of the manifest.

* `Document.injections_of_query?_eq_none`: where nothing is recorded, no set has gained a field.
* `Builder.log_accounts`: the log of each call, and of a run of calls from an empty manifest.
-/

namespace PersistedQuery

/-! ### Lines -/

/-- What is shown of an event: its message, and what it tells beside it. -/
structure Line where
  message : String
  details : List (String × Detail)

def Event.line (e : Event) : Line := ⟨e.message, e.details⟩

/-- The hash of an entry that was added, if the line tells of one. -/
def Line.hash? (l : Line) : Option String :=
  if l.message = "added manifest entry" then
    match l.details.lookup "hash" with
    | some (.text hash) => some hash
    | _ => none
  else
    none

/-! ### Calls -/

namespace Builder

/-- What a builder is given in one call: a document, or a file of a host. -/
inductive Input where
  | document (d : Document Numeral)
  | file (f : SourceFile)

def add (b : Builder) : Input → LogM (Option Entry × Builder)
  | .document d => b.addDocument d
  | .file f => b.addFile f

/-- One call after the other, with the entries that they return. -/
def addAll (b : Builder) : List Input → LogM (List (Option Entry) × Builder)
  | [] => return ([], b)
  | input :: inputs => do
    let (entry, b) ← b.add input
    let (entries, b) ← b.addAll inputs
    return (entry :: entries, b)

def Input.document? : Input → Option (Document Numeral)
  | .document d => some d
  | .file f => f.document

/-- The lines before those of the document. -/
def Input.opening : Input → List Line
  | .document _ => []
  | .file f => [⟨"adding document", [("location", .text (f.location.getD "<unknown>"))]⟩]

/-- The lines of a call that returns this entry, or none. -/
inductive Accounted (policy : TypenamePolicy) : Input → Option Entry → List Line → Prop
  | missing {location : Option String} :
    Accounted policy (.file ⟨location, none⟩) none
      [⟨"skipping file without a parsed document", [("location", .text (location.getD "<unknown>"))]⟩]
  | recorded {input : Input} {d : Document Numeral} (given : input.document? = some d) {entry : Entry} :
    Accounted policy input (some entry)
      (input.opening ++ (d.addTypename policy).run.2.map Event.line ++
        [⟨"added manifest entry", [("hash", .text entry.hash)]⟩])
  | skipped {input : Input} {d : Document Numeral} (given : input.document? = some d)
    (unchanged : (d.addTypename policy).run.2 = []) :
    Accounted policy input none (input.opening ++ [⟨"skipping document without canonical text", []⟩])

end Builder

/-! ### The lines of a document -/

section

variable (policy : TypenamePolicy)

theorem Document.log_addTypename {ν : Type} (d : Document ν) : (d.addTypename policy).run.2 = d.injections policy := by
  have run : (d.addTypename policy).run = (.ok (d.inject policy), [] ++ d.injections policy) :=
    d.yields_addTypename policy []
  rw [run, List.nil_append]

private theorem SelectionSet.injections_nil {ν : Type} (path : Path) (owner : Owner) :
    SelectionSet.injections policy path owner ([] : SelectionSet ν) = [] := by
  have nothing : ¬ policy.Gains owner ([] : SelectionSet ν) := fun gains => gains.1 rfl
  rw [SelectionSet.injections, SelectionSet.injectionsFrom, TypenamePolicy.gainEvents, if_neg nothing, List.append_nil]

/-- Where no definition selects anything, there is no set that could gain a field. -/
theorem Document.injections_of_query?_eq_none {d : Document Numeral} (h : d.query? policy = none) :
    d.injections policy = [] := by
  have empty : ∀ x ∈ d.definitions, x.selectionSet = [] := by
    unfold Document.query? at h
    split at h
    · cases h
    · rename_i not_selects
      intro x mem
      by_contra nonempty
      exact not_selects ⟨x, mem, nonempty⟩
  have definitions (xs : List (Definition Numeral)) (i : Nat) (empty : ∀ x ∈ xs, x.selectionSet = []) :
      Definition.injectionsFrom policy {} i xs = [] := by
    induction xs generalizing i with
    | nil => rfl
    | cons x xs ih =>
      rw [List.forall_mem_cons] at empty
      rw [Definition.injectionsFrom, ih (i + 1) empty.2, List.append_nil]
      cases x with
      | operation o =>
        have set : o.selectionSet = [] := empty.1
        rw [Definition.injections, set, SelectionSet.injections_nil]
      | fragment f =>
        have set : f.selectionSet = [] := empty.1
        rw [Definition.injections, set, SelectionSet.injections_nil]
  exact definitions d.definitions 0 empty

/-- A set that gains a field is no entry. -/
theorem Document.hashes_injections {ν : Type} (d : Document ν) :
    (d.injections policy).filterMap (·.line.hash?) = [] := by
  rw [Document.injections_eq, TypenamePolicy.events, List.filterMap_map, List.filterMap_eq_nil_iff]
  intro x _
  rfl

end

namespace Builder

variable {policy : TypenamePolicy}

theorem accounted_of_document (input : Input) {d : Document Numeral} (given : input.document? = some d) :
    Accounted policy input ((d.query? policy).map Entry.ofQuery)
      (input.opening ++ (d.injections policy ++ [recordEvent (d.query? policy)]).map Event.line) := by
  rw [List.map_append, ← List.append_assoc]
  cases query : d.query? policy with
  | some q =>
    rw [← Document.log_addTypename]
    exact .recorded given
  | none =>
    have unchanged := Document.injections_of_query?_eq_none policy query
    rw [unchanged, List.map_nil, List.append_nil]
    exact .skipped given (by rw [Document.log_addTypename, unchanged])

/-- A call appends the entry that it returns to the manifest, and its lines to the log. -/
theorem exists_accounted (b : Builder) (input : Input) : ∃ entry events,
    (b.add input).Yields (entry, ⟨b.policy, ⟨b.manifest.entries ++ entry.toList⟩⟩) events ∧
      Accounted b.policy input entry (events.map Event.line) := by
  cases input with
  | document d =>
    have run := b.yields_addDocument d
    rw [record_eq] at run
    exact ⟨_, _, run, accounted_of_document (.document d) rfl⟩
  | file f =>
    have run := b.yields_addFile f
    rw [record_eq] at run
    obtain ⟨location, document⟩ := f
    cases document with
    | none => exact ⟨_, _, run, .missing⟩
    | some d => exact ⟨_, _, run, accounted_of_document (.file ⟨location, some d⟩) rfl⟩

/-- The lines of a call tell the hash of the entry that it returns and no other. -/
theorem Accounted.hashes {input : Input} {entry : Option Entry} {lines : List Line}
    (h : Accounted policy input entry lines) : lines.filterMap Line.hash? = entry.toList.map (·.hash) := by
  have opening : input.opening.filterMap Line.hash? = [] := by cases input <;> rfl
  cases h with
  | missing => rfl
  | @recorded _ d given entry =>
    have injections : ((d.addTypename policy).run.2.map Event.line).filterMap Line.hash? = [] := by
      rw [Document.log_addTypename, List.filterMap_map]
      exact d.hashes_injections policy
    rw [List.filterMap_append, List.filterMap_append, opening, injections]
    rfl
  | skipped given unchanged =>
    rw [List.filterMap_append, opening]
    rfl

/-! ### Runs -/

/-- A run appends the entries that its calls return, and logs what its calls log, in order. -/
theorem exists_outcomes (b : Builder) (inputs : List Input) : ∃ outcomes : List (Option Entry × List Event),
    (b.addAll inputs).Yields
        (outcomes.map (·.1), ⟨b.policy, ⟨b.manifest.entries ++ outcomes.filterMap (·.1)⟩⟩) (outcomes.flatMap (·.2)) ∧
      List.Forall₂ (fun input o => Accounted b.policy input o.1 (o.2.map Event.line)) inputs outcomes := by
  induction inputs generalizing b with
  | nil =>
    refine ⟨[], ?_, .nil⟩
    simp only [List.filterMap_nil, List.append_nil]
    exact LogM.yields_pure ([], b)
  | cons input inputs ih =>
    obtain ⟨entry, events, first, accounted⟩ := b.exists_accounted input
    obtain ⟨outcomes, rest, each⟩ := ih ⟨b.policy, ⟨b.manifest.entries ++ entry.toList⟩⟩
    refine ⟨(entry, events) :: outcomes, ?_, .cons accounted each⟩
    have whole : (b.addAll (input :: inputs)).Yields _ _ := first.bind (rest.bind (LogM.yields_pure _))
    have entries : ((entry, events) :: outcomes).filterMap (·.1) = entry.toList ++ outcomes.filterMap (·.1) := by
      cases entry <;> rfl
    rw [entries, ← List.append_assoc, List.flatMap_cons]
    rw [List.append_nil] at whole
    exact whole

/-- The hashes that the lines of several calls tell are those of the entries that they return. -/
theorem hashes_outcomes {inputs : List Input} {outcomes : List (Option Entry × List Event)}
    (h : List.Forall₂ (fun input o => Accounted policy input o.1 (o.2.map Event.line)) inputs outcomes) :
    (outcomes.flatMap (·.2)).filterMap (·.line.hash?) = (outcomes.filterMap (·.1)).map (·.hash) := by
  induction h with
  | nil => rfl
  | @cons input outcome inputs outcomes accounted _ ih =>
    have first : outcome.2.filterMap (·.line.hash?) = outcome.1.toList.map (·.hash) := by
      have hashes := accounted.hashes
      rwa [List.filterMap_map] at hashes
    have entries : (outcome :: outcomes).filterMap (·.1) = outcome.1.toList ++ outcomes.filterMap (·.1) := by
      obtain ⟨entry, events⟩ := outcome
      cases entry <;> rfl
    rw [List.flatMap_cons, List.filterMap_append, first, ih, entries, List.map_append]

/-- Whatever was recorded before, a call succeeds, appends the entry that it returns, and logs the lines that account
for it.  A run of calls from an empty manifest logs the lines of its calls one after the other, and the hashes of added
entries that its log tells are, in order, those of the manifest in the end. -/
theorem log_accounts (policy : TypenamePolicy) :
    (∀ (m : Manifest) (input : Input) (before : List Event), ∃ entry events,
      add ⟨policy, m⟩ input before = (.ok (entry, ⟨policy, ⟨m.entries ++ entry.toList⟩⟩), before ++ events) ∧
        Accounted policy input entry (events.map Event.line)) ∧
    ∀ inputs : List Input, ∃ (outcomes : List (Option Entry × List Event)) (m : Manifest),
      (addAll ⟨policy, {}⟩ inputs).run = (.ok (outcomes.map (·.1), ⟨policy, m⟩), outcomes.flatMap (·.2)) ∧
        List.Forall₂ (fun input o => Accounted policy input o.1 (o.2.map Event.line)) inputs outcomes ∧
          m.entries = outcomes.filterMap (·.1) ∧
            (outcomes.flatMap (·.2)).filterMap (·.line.hash?) = m.entries.map (·.hash) := by
  constructor
  · intro m input before
    obtain ⟨entry, events, run, accounted⟩ := exists_accounted ⟨policy, m⟩ input
    exact ⟨entry, events, run before, accounted⟩
  · intro inputs
    obtain ⟨outcomes, run, each⟩ := exists_outcomes ⟨policy, {}⟩ inputs
    exact ⟨outcomes, _, run [], each, rfl, hashes_outcomes each⟩

end Builder

end PersistedQuery
