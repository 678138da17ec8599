import PersistedQuery.Manifest.Generate
import PersistedQuery.Proofs.Canonical.Document
import PersistedQuery.Proofs.Injection

/-!
# Recording documents

A builder records the canonical text of each document that selects something, as it is after `__typename` was added,
and nothing else.  Blanks are taken off both ends of a text before it is looked at, but whatever the names in a document
are, its text has none there (`Document.trim_text`), and it is empty only where nothing is selected
(`Document.text_eq_nil_iff`).  So a run over files records a text for each document that selects something, in order
(`Builder.yields_addFiles`).
-/

namespace PersistedQuery

open Text

/-! ### Texts without blanks at their ends -/

/-- There is something in the text, and it neither begins nor ends with a blank. -/
def Text.Solid (t : List Char) : Prop :=
  (∃ c, t.head? = some c ∧ isBlank c = false) ∧ ∃ c, t.getLast? = some c ∧ isBlank c = false

private theorem dropWhile_isBlank {t : List Char} (h : ∃ c, t.head? = some c ∧ isBlank c = false) :
    t.dropWhile isBlank = t := by
  obtain ⟨c, head, blank⟩ := h
  obtain ⟨u, rfl⟩ := List.head?_eq_some_iff.1 head
  rw [List.dropWhile_cons_of_neg (by simp [blank])]

theorem Text.Solid.trim_eq {t : List Char} (h : Solid t) : trim t = t := by
  unfold trim
  rw [dropWhile_isBlank h.1, dropWhile_isBlank (by simpa using h.2), List.reverse_reverse]

theorem Text.Solid.ne_nil {t : List Char} (h : Solid t) : t ≠ [] := by
  rintro rfl
  obtain ⟨⟨_, head, _⟩, _⟩ := h
  cases head

/-- What stands between a solid beginning and a solid end does not matter. -/
private theorem Text.Solid.append {t u : List Char} (ht : Solid t) (between : List Char) (hu : Solid u) :
    Solid (t ++ (between ++ u)) := by
  obtain ⟨⟨c, head, hc⟩, _⟩ := ht
  obtain ⟨_, d, last, hd⟩ := hu
  exact ⟨⟨c, by simp [head], hc⟩, d, by simp [last], hd⟩

private theorem solid_spaced {ts : List (List Char)} (nonempty : ts ≠ []) (h : ∀ t ∈ ts, Solid t) :
    Solid (spaced ts) := by
  induction ts with
  | nil => exact absurd rfl nonempty
  | cons t ts ih =>
    rw [List.forall_mem_cons] at h
    cases ts with
    | nil => simpa [spaced_cons] using h.1
    | cons u ts =>
      have tail := ih (by simp) h.2
      rw [show spaced (t :: u :: ts) = t ++ ([' '] ++ spaced (u :: ts)) by simp [spaced_cons]]
      exact h.1.append _ tail

/-! ### The text of a document -/

private theorem solid_selectionSet {set : SelectionSet Numeral} (h : set ≠ []) : Solid (SelectionSet.text set) := by
  obtain ⟨s, set, rfl⟩ := List.exists_cons_of_ne_nil h
  refine ⟨⟨'\x7b', ?_, by decide⟩, '\x7d', ?_, by decide⟩
  · obtain ⟨t, eq⟩ := selectionSet_cons s set
    rw [eq, List.head?_cons]
  · simp [SelectionSet.text, SelectionSet.texts, braced, List.getLast?_cons]

private theorem solid_kind (kind : OperationKind) : Solid kind.text := by
  cases kind with
  | query => exact ⟨⟨'q', rfl, by decide⟩, 'y', rfl, by decide⟩
  | mutation => exact ⟨⟨'m', rfl, by decide⟩, 'n', rfl, by decide⟩
  | subscription => exact ⟨⟨'s', rfl, by decide⟩, 'n', rfl, by decide⟩

/-- A definition that selects something begins with a keyword or a brace and ends with a brace. -/
theorem Definition.solid_text (x : Definition Numeral) (h : x.selectionSet ≠ []) : Solid x.text := by
  cases x with
  | operation o =>
    have set : Solid (SelectionSet.text o.selectionSet) := solid_selectionSet h
    rw [Definition.text, Operation.text_eq, Operation.keyword, Operation.tail]
    by_cases short : o.isShorthand
    · rw [if_pos short, if_pos short, List.nil_append]
      exact set
    · rw [if_neg short, if_neg short]
      simpa using (solid_kind o.kind).append
        (headingText o.name o.variableDefinitions ++ directivesText o.directives ++ [' ']) set
  | fragment f =>
    have set : Solid (SelectionSet.text f.selectionSet) := solid_selectionSet h
    have word : Solid fragmentKeyword := ⟨⟨'f', rfl, by decide⟩, 't', rfl, by decide⟩
    rw [Definition.text, Fragment.text_eq, Fragment.tail]
    simpa using word.append
      (' ' :: (f.name.toList ++ conditionText (some f.typeCondition) ++ directivesText f.directives ++ [' '])) set

private theorem Document.solid_text {d : Document Numeral} (h : d.selecting ≠ []) : Solid d.text := by
  refine solid_spaced (by simpa using h) ?_
  intro t ht
  obtain ⟨x, mem, rfl⟩ := List.mem_map.1 ht
  exact x.solid_text (by simpa using (List.mem_filter.1 mem).2)

/-- A text is empty only if no definition of the document selects anything. -/
theorem Document.text_eq_nil_iff (d : Document Numeral) : d.text = [] ↔ d.selecting = [] := by
  constructor
  · intro h
    by_cases empty : d.selecting = []
    · exact empty
    · exact absurd h (Document.solid_text empty).ne_nil
  · intro h
    rw [Document.text, h]
    rfl

/-- No blank stands at either end of the text of a document. -/
theorem Document.trim_text (d : Document Numeral) : trim d.text = d.text := by
  by_cases h : d.selecting = []
  · rw [d.text_eq_nil_iff.2 h]
    rfl
  · exact (Document.solid_text h).trim_eq

/-! ### What is recorded of a document -/

/-- The text that is recorded for a document, if there is a definition in it that selects something. -/
def Document.query? (policy : TypenamePolicy) (d : Document Numeral) : Option String :=
  if ∃ x ∈ d.definitions, x.selectionSet ≠ [] then some (d.inject policy).print else none

def SourceFile.query? (policy : TypenamePolicy) (file : SourceFile) : Option String :=
  file.document.bind (Document.query? policy)

/-- Adds the entry of a text at the end of the manifest; nothing changes where no text is recorded. -/
def Builder.record (b : Builder) : Option String → Builder
  | some query => { b with manifest := b.manifest.push (Entry.ofQuery query) }
  | none => b

theorem Builder.record_eq (b : Builder) (query? : Option String) :
    b.record query? = ⟨b.policy, ⟨b.manifest.entries ++ (query?.map Entry.ofQuery).toList⟩⟩ := by
  cases query? with
  | none => simp [record]
  | some query => rfl

private theorem Document.selecting_inject_eq_nil_iff (policy : TypenamePolicy) (d : Document Numeral) :
    (d.inject policy).selecting = [] ↔ ¬ ∃ x ∈ d.definitions, x.selectionSet ≠ [] := by
  unfold Document.selecting Document.inject
  simp [Definition.inject_selectionSet_eq_nil_iff]

/-- The last event of adding a document. -/
def recordEvent : Option String → Event
  | some query => .addedEntry (Entry.ofQuery query).hash
  | none => .skippingDocument

namespace Builder

theorem yields_addDocument (b : Builder) (d : Document Numeral) :
    (b.addDocument d).Yields ((d.query? b.policy).map Entry.ofQuery, b.record (d.query? b.policy))
      (d.injections b.policy ++ [recordEvent (d.query? b.policy)]) := by
  refine (d.yields_addTypename b.policy).bind ?_
  rw [Document.trim_text]
  by_cases selects : ∃ x ∈ d.definitions, x.selectionSet ≠ []
  · have text : (d.inject b.policy).text ≠ [] := by
      rw [Ne, Document.text_eq_nil_iff, Document.selecting_inject_eq_nil_iff]
      exact not_not_intro selects
    rw [Document.query?, if_pos selects, if_neg (by simpa using text)]
    exact (LogM.yields_log _).bind (LogM.yields_pure _)
  · have text : (d.inject b.policy).text = [] := by
      rw [Document.text_eq_nil_iff, Document.selecting_inject_eq_nil_iff]
      exact selects
    rw [Document.query?, if_neg selects, if_pos (by simpa using text)]
    exact (LogM.yields_log _).bind (LogM.yields_pure _)

end Builder

def SourceFile.events (policy : TypenamePolicy) (file : SourceFile) : List Event :=
  match file.document with
  | some d => .addingDocument file.location :: (d.injections policy ++ [recordEvent (d.query? policy)])
  | none => [.skippingFile file.location]

namespace Builder

theorem yields_addFile (b : Builder) (file : SourceFile) :
    (b.addFile file).Yields ((file.query? b.policy).map Entry.ofQuery, b.record (file.query? b.policy))
      (file.events b.policy) := by
  obtain ⟨location, document⟩ := file
  cases document with
  | none => exact (LogM.yields_log _).bind (LogM.yields_pure _)
  | some d => exact (LogM.yields_log _).bind (b.yields_addDocument d)

/-- A run over files records the texts of the files that have one, behind what was recorded before. -/
theorem yields_addFiles (b : Builder) (files : List SourceFile) :
    (b.addFiles files).Yields
      { b with manifest := ⟨b.manifest.entries ++ (files.filterMap (SourceFile.query? b.policy)).map Entry.ofQuery⟩ }
      (files.flatMap (SourceFile.events b.policy)) := by
  induction files generalizing b with
  | nil =>
    simp only [List.filterMap_nil, List.map_nil, List.append_nil]
    exact LogM.yields_pure b
  | cons file files ih =>
    -- the entry that a step returns is dropped, its builder is passed on
    have first := (b.yields_addFile file).map (·.2)
    have rest := ih (b.record (file.query? b.policy))
    have whole : (b.addFiles (file :: files)).Yields _ _ := first.bind rest
    cases query : file.query? b.policy with
    | none => simpa [record, query] using whole
    | some q => simpa [record, query] using whole

end Builder

/-! ### Whole runs -/

private theorem yields_generate (files : List SourceFile) (config : Config) :
    ∃ events, (generate files config).Yields
      ((Manifest.ofQueries (files.filterMap (SourceFile.query? config.typenamePolicy))).render config.output)
      events := by
  have recorded := Builder.yields_addFiles { policy := config.typenamePolicy } files
  exact ⟨_, (LogM.yields_log _).bind (recorded.bind ((LogM.yields_log _).bind (LogM.yields_pure _)))⟩

/-- A run over files records for each file with a document that selects something the text of that document after
`__typename` was added, as it is and with its SHA-256 digest, and nothing for any other file.  So do the single steps,
which return the entry that they record, whatever was recorded and logged before.  A generated manifest is the one that
is collected from the recorded texts. -/
theorem Builder.records_queries (policy : TypenamePolicy) (files : List SourceFile) :
    (∀ (d : Document Numeral) (before : List Event), (d.addTypename policy before).1 = .ok (d.inject policy)) ∧
    (∀ (m : Manifest) (d : Document Numeral) (before : List Event), ∃ entry : Option Entry,
      entry = (d.query? policy).map (fun query => ⟨sha256 query, query⟩) ∧
        (addDocument ⟨policy, m⟩ d before).1 = .ok (entry, ⟨policy, ⟨m.entries ++ entry.toList⟩⟩)) ∧
    (∀ (m : Manifest) (file : SourceFile) (before : List Event), ∃ entry : Option Entry,
      entry = (file.query? policy).map (fun query => ⟨sha256 query, query⟩) ∧
        (addFile ⟨policy, m⟩ file before).1 = .ok (entry, ⟨policy, ⟨m.entries ++ entry.toList⟩⟩)) ∧
    (∀ (m : Manifest) (before : List Event),
      (addFiles ⟨policy, m⟩ files before).1 = .ok ⟨policy, ⟨m.entries ++
        (files.filterMap (SourceFile.query? policy)).map fun query => ⟨sha256 query, query⟩⟩⟩) ∧
    ∃ collected : Manifest, collected = Manifest.ofQueries (files.filterMap (SourceFile.query? policy)) ∧
      collected.entries = (files.filterMap (SourceFile.query? policy)).map (fun query => ⟨sha256 query, query⟩) ∧
        ∀ (output : OutputFormat) (before : List Event),
          (generate files ⟨output, policy⟩ before).1 = .ok (collected.render output) := by
  refine ⟨?_, ?_, ?_, ?_, _, rfl, rfl, ?_⟩
  · intro d before
    rw [d.yields_addTypename policy before]
  · intro m d before
    refine ⟨_, rfl, ?_⟩
    rw [yields_addDocument ⟨policy, m⟩ d before, record_eq]
    rfl
  · intro m file before
    refine ⟨_, rfl, ?_⟩
    rw [yields_addFile ⟨policy, m⟩ file before, record_eq]
    rfl
  · intro m before
    rw [yields_addFiles ⟨policy, m⟩ files before]
    rfl
  · intro output before
    obtain ⟨events, whole⟩ := yields_generate files ⟨output, policy⟩
    rw [whole before]

end PersistedQuery
