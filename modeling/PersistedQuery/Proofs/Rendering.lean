import PersistedQuery.Manifest.Rendering
import PersistedQuery.Proofs.Json.Reading

/-!
# Reading written manifests

A manifest is read back from its text.  On lines, no content breaks a line, so each piece of the text is one entry
(`Manifest.splitOn_lines`).  As an object, each hash stands where it first occurs with the query that was added last
under it, which is what the manifest gives for the hash (`Manifest.get?_eq`).

* `Manifest.render_jsonLines_reads`: each line is JSON for its entry, and the lines tell the manifest.
* `Manifest.render_object_reads`: the object has the distinct hashes, and under each what is found under it.
-/

namespace PersistedQuery

open Text

/-! ### One entry to a line -/

theorem Entry.json_inj {e f : Entry} (h : e.json = f.json) : e = f := by
  cases e
  cases f
  simpa [Entry.json] using h

theorem Entry.reads_text (e : Entry) (word : List Char → Option Json) (v : Json) :
    Json.Reads word e.json.text v ↔ v = e.json := by
  have reads : Json.Reads word e.json.text e.json :=
    (Json.scans_text_ofStrings [⟨"hash", e.hash⟩, ⟨"query", e.query⟩]).reads
  constructor
  · intro h
    exact h.unique reads
  · rintro rfl
    exact reads

/-- No character of an entry's text is a control character of ASCII, whatever there is in the query. -/
theorem Entry.le_of_mem_text {e : Entry} {c : Char} (h : c ∈ e.json.text) : ' ' ≤ c := by
  simp only [Entry.json, Json.text_object, Json.text_string, Json.memberTexts, List.intercalate_cons_cons,
    List.intercalate_singleton, List.mem_append, List.mem_cons, List.not_mem_nil, or_false] at h
  rcases h with (rfl | ((string | rfl | string) | rfl) | string | rfl | string) | rfl
  all_goals first | decide | exact Json.le_of_mem_stringText string

theorem Manifest.splitOn_lines {m : Manifest} (h : m.entries ≠ []) :
    m.lines.splitOn '\n' = m.entries.map (·.json.text) := by
  refine List.splitOn_intercalate '\n' ?_ (by simpa using h)
  intro piece mem
  obtain ⟨e, _, rfl⟩ := List.mem_map.1 mem
  intro broken
  exact absurd (Entry.le_of_mem_text broken) (by decide)

/-- An entry is never written as an empty line, so the text tells no entry from one with an empty query. -/
theorem Manifest.lines_eq_nil_iff (m : Manifest) : m.lines = [] ↔ m.entries = [] := by
  constructor
  · intro h
    by_cases empty : m.entries = []
    · exact empty
    · have pieces := Manifest.splitOn_lines empty
      rw [h] at pieces
      obtain ⟨e, _, text⟩ : ∃ e ∈ m.entries, e.json.text = [] := by
        rw [← List.mem_map, ← pieces]
        simp
      cases text
  · intro h
    rw [Manifest.lines, h]
    rfl

/-- The lines of a manifest tell its entries. -/
theorem Manifest.lines_inj {m m' : Manifest} (h : m.lines = m'.lines) : m = m' := by
  have text_inj (e f : Entry) (h : e.json.text = f.json.text) : e = f :=
    Entry.json_inj ((f.reads_text (fun _ => none) e.json).1 (h ▸ (e.reads_text (fun _ => none) e.json).2 rfl))
  refine congrArg Manifest.mk (?_ : m.entries = m'.entries)
  by_cases empty : m.entries = []
  · have empty' : m'.entries = [] := by
      rw [← Manifest.lines_eq_nil_iff, ← h, Manifest.lines_eq_nil_iff]
      exact empty
    rw [empty, empty']
  · have nonempty' : m'.entries ≠ [] := by
      rw [Ne, ← Manifest.lines_eq_nil_iff, ← h, Manifest.lines_eq_nil_iff]
      exact empty
    have pieces : m.entries.map (·.json.text) = m'.entries.map (·.json.text) := by
      rw [← Manifest.splitOn_lines empty, h, Manifest.splitOn_lines nonempty']
    exact (List.map_inj_right text_inj).1 pieces

/-- The entries of a manifest stand on lines of their own, in order.  Whatever the texts are, there are as many lines as
entries, no line has a control character of ASCII in it, and each line is JSON for the object of the hash and the query
of its entry, and for nothing else.  Without entries there is no text.  So the text tells the manifest. -/
theorem Manifest.render_jsonLines_reads (m : Manifest) :
    (m.entries = [] → m.render .jsonLines = "") ∧
    (m.entries ≠ [] →
      ((m.render .jsonLines).toList.splitOn '\n').length = m.entries.length ∧
      (∀ line ∈ (m.render .jsonLines).toList.splitOn '\n', ∀ c ∈ line, 0x20 ≤ c.toNat) ∧
      ∀ (n : Nat) (line : List Char) (e : Entry), ((m.render .jsonLines).toList.splitOn '\n')[n]? = some line →
        m.entries[n]? = some e → ∀ (word : List Char → Option Json) (v : Json),
          Json.Reads word line v ↔ v = .object [⟨"hash", .string e.hash⟩, ⟨"query", .string e.query⟩]) ∧
    ∀ m' : Manifest, m.render .jsonLines = m'.render .jsonLines → m = m' := by
  refine ⟨?_, ?_, ?_⟩
  · intro empty
    rw [render, lines, empty]
    rfl
  · intro nonempty
    rw [render, String.toList_ofList, splitOn_lines nonempty]
    refine ⟨List.length_map _, ?_, ?_⟩
    · intro line mem c hc
      obtain ⟨e, _, rfl⟩ := List.mem_map.1 mem
      exact Entry.le_of_mem_text hc
    · intro n line e at_line at_entry word v
      rw [List.getElem?_map, at_entry, Option.map_some, Option.some.injEq] at at_line
      subst at_line
      exact e.reads_text word v
  · intro m' same
    exact lines_inj (String.ofList_injective same)

/-! ### One object of all entries -/

theorem Json.reads_prettyStrings (members : List (Binding String)) (word : List Char → Option Json) (v : Json) :
    Json.Reads word (Json.prettyStrings members) v ↔ v = Json.ofStrings members := by
  constructor
  · intro h
    exact h.unique (Json.scans_prettyStrings members).reads
  · rintro rfl
    exact (Json.scans_prettyStrings members).reads

namespace Manifest

/-- A query is found under a hash exactly if its entry is the last one with that hash. -/
theorem get?_eq_some_iff (m : Manifest) (hash query : String) :
    m.get? hash = some query ↔
      ∃ before after, m.entries = before ++ ⟨hash, query⟩ :: after ∧ ∀ e ∈ after, e.hash ≠ hash := by
  unfold get?
  rw [List.findRev?_eq_find?_reverse, Option.map_eq_some_iff]
  simp only [List.find?_eq_some_iff_append, decide_eq_true_eq, Bool.not_eq_true', decide_eq_false_iff_not]
  constructor
  · rintro ⟨e, ⟨rfl, after, before, split, others⟩, rfl⟩
    refine ⟨before.reverse, after.reverse, ?_, fun e he => others e (List.mem_reverse.1 he)⟩
    rw [← List.reverse_reverse m.entries, split]
    simp
  · rintro ⟨before, after, split, others⟩
    refine ⟨⟨hash, query⟩, ⟨rfl, after.reverse, before.reverse, ?_, fun e he => others e (List.mem_reverse.1 he)⟩, rfl⟩
    rw [split]
    simp

/-- What is found under a hash is what the object has there. -/
theorem get?_eq (m : Manifest) (hash : String) : m.get? hash = Binding.get? m.queries hash := by
  unfold queries get?
  rw [Binding.get?_byArrival, Binding.getLast?, Binding.get?, List.findRev?_eq_find?_reverse, ← List.map_reverse,
    List.find?_map, Option.map_map]
  rfl

/-- The object of a manifest has each hash once, where it first occurs, and with the query of the last entry of that
hash.  This is the query that is found under the hash, and nothing is found under any other string.  Whether different
queries have different hashes plays no part. -/
theorem render_object_reads (m : Manifest) :
    ∃ members : List (Binding String),
      (∀ (word : List Char → Option Json) (v : Json),
        Json.Reads word (m.render .object).toList v ↔ v = .object (members.map (Binding.map .string))) ∧
      members.map (·.name) = (m.entries.map (·.hash)).eraseDups ∧
      (∀ b ∈ members, ∃ before after,
        m.entries = before ++ ⟨b.name, b.value⟩ :: after ∧ ∀ e ∈ after, e.hash ≠ b.name) ∧
      ∀ hash, (∀ query, m.get? hash = some query ↔ ⟨hash, query⟩ ∈ members) ∧
        (m.get? hash = none ↔ ∀ b ∈ members, b.name ≠ hash) := by
  have found (hash query : String) : m.get? hash = some query ↔ ⟨hash, query⟩ ∈ m.queries := by
    rw [get?_eq]
    exact Binding.get?_eq_some_iff_mem (Binding.nodup_byArrival _) hash query
  refine ⟨m.queries, ?_, ?_, ?_, ?_⟩
  · intro word v
    rw [render, String.toList_ofList]
    exact Json.reads_prettyStrings m.queries word v
  · rw [queries, Binding.map_name_byArrival, List.map_map]
    rfl
  · intro b mem
    exact (m.get?_eq_some_iff b.name b.value).1 ((found b.name b.value).2 mem)
  · intro hash
    refine ⟨found hash, ?_⟩
    rw [get?_eq, Binding.get?_eq_none_iff]
    simp

end Manifest

end PersistedQuery
