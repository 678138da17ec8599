import PersistedQuery.Sha256

/-!
# Manifests

A manifest lists queries with their hashes in the order in which they were added.  A query that is added again is
listed again.
-/

namespace PersistedQuery

/-- A query and the hash that stands for it. -/
structure Entry where
  hash : String
  query : String
  deriving DecidableEq

def Entry.ofQuery (query : String) : Entry := ⟨sha256 query, query⟩

structure Manifest where
  entries : List Entry := []
  deriving DecidableEq

namespace Manifest

def ofQueries (queries : List String) : Manifest := ⟨queries.map Entry.ofQuery⟩

def push (m : Manifest) (e : Entry) : Manifest := ⟨m.entries ++ [e]⟩

/-- The query that was last added under a hash. -/
def get? (m : Manifest) (hash : String) : Option String := (m.entries.findRev? (·.hash = hash)).map (·.query)

@[simp]
theorem entries_push (m : Manifest) (e : Entry) : (m.push e).entries = m.entries ++ [e] := rfl

end Manifest

end PersistedQuery
