import PersistedQuery.Proofs.Recording

/-!
# Recorded hashes resolve

A manifest grows by texts that are pushed as they are and by what builders record.  Every such run appends entries of
texts and changes none (`Manifest.yields_addAll`), so at any moment the manifest is that of the texts recorded so far,
in order.  What is found under a hash is the last text with that hash (`Manifest.get?_ofQueries`): under a hash that was
ever recorded a text is found from then on, and it has that hash, though a later text may take the place of the first
one if their hashes agree.
-/

namespace PersistedQuery

/-! ### Ways to add to a manifest -/

/-- Something to add to a manifest: a text as it is, or a document or a file in the way of a builder. -/
inductive Contribution where
  | text (query : String)
  | document (policy : TypenamePolicy) (d : Document Numeral)
  | file (policy : TypenamePolicy) (f : SourceFile)

/-- The text that is recorded, if any. -/
def Contribution.query? : Contribution → Option String
  | .text query => some query
  | .document policy d => d.query? policy
  | .file policy f => f.query? policy

/-- The entry that is returned, if any. -/
def Contribution.entry? (c : Contribution) : Option Entry := c.query?.map Entry.ofQuery

namespace Manifest

/-- Adds to a manifest and returns the entry, if there is one. -/
def add (m : Manifest) : Contribution → LogM (Option Entry × Manifest)
  | .text query => do
    let entry := Entry.ofQuery query
    log (.addedEntry entry.hash)
    return (some entry, m.push entry)
  | .document policy d => Prod.map id Builder.manifest <$> Builder.addDocument ⟨policy, m⟩ d
  | .file policy f => Prod.map id Builder.manifest <$> Builder.addFile ⟨policy, m⟩ f

/-- Adds one contribution after the other. -/
def addAll (m : Manifest) (contributions : List Contribution) : LogM Manifest :=
  contributions.foldlM (fun m c => return (← m.add c).2) m

/-! ### What a run appends -/

/-- One contribution appends the entry that it returns, or nothing. -/
theorem yields_add (m : Manifest) (c : Contribution) :
    ∃ events, (m.add c).Yields (c.entry?, ⟨m.entries ++ c.entry?.toList⟩) events := by
  cases c with
  | text query =>
    have run : (m.add (.text query)).Yields (some (Entry.ofQuery query), m.push (Entry.ofQuery query)) _ :=
      (LogM.yields_log _).bind (LogM.yields_pure _)
    exact ⟨_, run⟩
  | document policy d =>
    have run := (Builder.yields_addDocument ⟨policy, m⟩ d).map (Prod.map id Builder.manifest)
    rw [Prod.map, Builder.record_eq] at run
    exact ⟨_, run⟩
  | file policy f =>
    have run := (Builder.yields_addFile ⟨policy, m⟩ f).map (Prod.map id Builder.manifest)
    rw [Prod.map, Builder.record_eq] at run
    exact ⟨_, run⟩

/-- A run appends the entries of its contributions, in order. -/
theorem yields_addAll (m : Manifest) (contributions : List Contribution) :
    ∃ events, (m.addAll contributions).Yields ⟨m.entries ++ contributions.filterMap Contribution.entry?⟩ events := by
  induction contributions generalizing m with
  | nil =>
    rw [List.filterMap_nil, List.append_nil]
    exact ⟨[], LogM.yields_pure m⟩
  | cons c contributions ih =>
    obtain ⟨_, first⟩ := m.yields_add c
    obtain ⟨_, rest⟩ := ih ⟨m.entries ++ c.entry?.toList⟩
    have whole : (m.addAll (c :: contributions)).Yields _ _ := (first.map (·.2)).bind rest
    have entries : (c :: contributions).filterMap Contribution.entry? =
        c.entry?.toList ++ contributions.filterMap Contribution.entry? := by
      cases h : c.entry? <;> simp [h]
    rw [List.append_assoc, ← entries] at whole
    exact ⟨_, whole⟩

/-! ### What is found under a hash -/

/-- The last of the texts with a hash is found under it. -/
theorem get?_ofQueries (texts : List String) (hash : String) :
    (ofQueries texts).get? hash = texts.reverse.find? (sha256 · = hash) := by
  unfold get? ofQueries
  rw [List.findRev?_eq_find?_reverse, ← List.map_reverse, List.find?_map, Option.map_map]
  have query : ((fun e => e.query) ∘ Entry.ofQuery) = id := rfl
  rw [query, Option.map_id]
  rfl

/-- Under the hash of a text a text with that hash is found. -/
theorem exists_get?_ofQueries {texts : List String} {s : String} (h : s ∈ texts) :
    ∃ query ∈ texts, (ofQueries texts).get? (sha256 s) = some query ∧ sha256 query = sha256 s := by
  have found : (texts.reverse.find? (sha256 · = sha256 s)).isSome := by
    rw [List.find?_isSome]
    exact ⟨s, List.mem_reverse.2 h, by simp⟩
  obtain ⟨query, eq⟩ := Option.isSome_iff_exists.1 found
  have mem : query ∈ texts := List.mem_reverse.1 (List.mem_of_find?_eq_some eq)
  have hash : sha256 query = sha256 s := by simpa using List.find?_some eq
  refine ⟨query, mem, ?_, hash⟩
  rw [get?_ofQueries]
  exact eq

/-! ### Runs -/

/-- Whatever is added to a manifest of texts, it stays a manifest of texts. -/
theorem addAll_ofQueries (texts : List String) (contributions : List Contribution) (before : List Event) :
    ((ofQueries texts).addAll contributions before).1 =
      .ok (ofQueries (texts ++ contributions.filterMap Contribution.query?)) := by
  obtain ⟨events, run⟩ := (ofQueries texts).yields_addAll contributions
  have entries : contributions.filterMap Contribution.entry? =
      (contributions.filterMap Contribution.query?).map Entry.ofQuery := by
    rw [List.map_filterMap]
    rfl
  rw [run before, entries, ofQueries, ofQueries, List.map_append]

/-- A manifest that is collected from texts and added to, in whatever way and order, has entries whose hashes are the
SHA-256 digests of their queries.  Each further contribution returns the one entry that it appends, or appends nothing.
Under the hash of any entry a query with that hash is found from then on, which is the query of that very entry unless
different texts of the run have the same hash.  The manifest is the one that is collected from all these texts. -/
theorem addAll_resolves (texts : List String) (earlier later : List Contribution) :
    ∃ m m' : Manifest,
      (∀ before, ((ofQueries texts).addAll earlier before).1 = .ok m) ∧
      (∀ before, (m.addAll later before).1 = .ok m') ∧
      (∀ e ∈ m.entries, e.hash = sha256 e.query ∧ e.hash.length = 64 ∧
        ∀ c ∈ e.hash.toList, c ∈ "0123456789abcdef".toList) ∧
      (∀ c : Contribution, ∃ (entry : Option Entry) (m₁ : Manifest),
        (∀ before, (m.add c before).1 = .ok (entry, m₁)) ∧
          entry = c.query?.map (fun query => ⟨sha256 query, query⟩) ∧ m₁.entries = m.entries ++ entry.toList) ∧
      (∀ e ∈ m.entries, ∃ query, m'.get? e.hash = some query ∧ sha256 query = e.hash ∧
        ((∀ s ∈ m'.entries.map (·.query), ∀ t ∈ m'.entries.map (·.query), sha256 s = sha256 t → s = t) →
          query = e.query)) ∧
      m'.entries.map (·.query) = texts ++ (earlier ++ later).filterMap Contribution.query? ∧
      m' = ofQueries (m'.entries.map (·.query)) := by
  have queries (texts : List String) : (ofQueries texts).entries.map (·.query) = texts := by
    rw [ofQueries, List.map_map]
    exact List.map_id texts
  refine ⟨ofQueries (texts ++ earlier.filterMap Contribution.query?),
    ofQueries (texts ++ (earlier ++ later).filterMap Contribution.query?), addAll_ofQueries texts earlier, ?_, ?_, ?_,
    ?_, queries _, ?_⟩
  · intro before
    rw [addAll_ofQueries, List.filterMap_append, List.append_assoc]
  · intro e mem
    obtain ⟨s, _, rfl⟩ := List.mem_map.1 mem
    exact ⟨rfl, length_sha256 s, fun c hc => mem_hexDigits_of_mem_sha256 hc⟩
  · intro c
    obtain ⟨events, run⟩ := (ofQueries (texts ++ earlier.filterMap Contribution.query?)).yields_add c
    refine ⟨c.entry?, _, fun before => ?_, rfl, rfl⟩
    rw [run before]
  · intro e mem
    obtain ⟨s, recorded, rfl⟩ := List.mem_map.1 mem
    have kept : s ∈ texts ++ (earlier ++ later).filterMap Contribution.query? := by
      rw [List.filterMap_append, ← List.append_assoc]
      exact List.mem_append_left _ recorded
    obtain ⟨query, mem, found, hash⟩ := exists_get?_ofQueries kept
    refine ⟨query, found, hash, fun distinct => ?_⟩
    rw [queries] at distinct
    exact distinct query mem s kept hash
  · rw [queries]

end Manifest

end PersistedQuery
