import PersistedQuery.Json.Text
import PersistedQuery.Manifest.Basic
import PersistedQuery.Manifest.OutputFormat

/-!
# Written manifests
-/

namespace PersistedQuery

def Entry.json (e : Entry) : Json := .object [⟨"hash", .string e.hash⟩, ⟨"query", .string e.query⟩]

namespace Manifest

/-- The entries as JSON objects, one to a line, without a line break at the end. -/
def lines (m : Manifest) : List Char := ['\n'].intercalate (m.entries.map (·.json.text))

/-- The queries by hash.  A hash stands where it was first added, with the query that was last added under it. -/
def queries (m : Manifest) : List (Binding String) := Binding.byArrival (m.entries.map fun e => ⟨e.hash, e.query⟩)

def render (m : Manifest) : OutputFormat → String
  | .jsonLines => String.ofList m.lines
  | .object => String.ofList (Json.prettyStrings m.queries)

end Manifest

end PersistedQuery
