/-!
# Output formats
-/

namespace PersistedQuery

/-- How a manifest is written: an object for each entry on a line of its own, or one object of all entries. -/
inductive OutputFormat where
  | jsonLines
  | object
  deriving DecidableEq

instance : Inhabited OutputFormat := ⟨.jsonLines⟩

end PersistedQuery
