import PersistedQuery.Document.Canonical
import PersistedQuery.Manifest.Basic
import PersistedQuery.Text.Blank
import PersistedQuery.Typename

/-!
# Building a manifest

Each document gains its `__typename` fields, is written as canonical text and recorded under the hash of that text.  A
document of which nothing is written is skipped.
-/

namespace PersistedQuery

/-- A manifest under way. -/
structure Builder where
  policy : TypenamePolicy := default
  manifest : Manifest := {}

/-- A file of a host, with the document if there is one in it. -/
structure SourceFile where
  location : Option String
  document : Option (Document Numeral)

namespace Builder

/-- Records a document.  The entry is that of the document, if it was not skipped. -/
def addDocument (b : Builder) (d : Document Numeral) : LogM (Option Entry × Builder) := do
  let d ← d.addTypename b.policy
  let query := Text.trim d.text
  if query.isEmpty then
    log .skippingDocument
    return (none, b)
  else
    let entry := Entry.ofQuery (String.ofList query)
    log (.addedEntry entry.hash)
    return (some entry, { b with manifest := b.manifest.push entry })

/-- Records the document of a file. -/
def addFile (b : Builder) (file : SourceFile) : LogM (Option Entry × Builder) := do
  match file.document with
  | some d =>
    log (.addingDocument file.location)
    b.addDocument d
  | none =>
    log (.skippingFile file.location)
    return (none, b)

/-- Records the documents of files, in order. -/
def addFiles (b : Builder) (files : List SourceFile) : LogM Builder :=
  files.foldlM (fun b file => return (← b.addFile file).2) b

end Builder

end PersistedQuery
