import PersistedQuery.Manifest.Builder
import PersistedQuery.Manifest.Rendering
import PersistedQuery.Options.Config

/-!
# Generating a manifest
-/

namespace PersistedQuery

/-- The written manifest of a host's files.  The schema that a host hands over with them is not read. -/
def generate (files : List SourceFile) (config : Config) : LogM String := do
  log (.run files.length)
  let builder ← Builder.addFiles { policy := config.typenamePolicy } files
  log (.rendering builder.manifest.entries.length config.output)
  return builder.manifest.render config.output

end PersistedQuery
