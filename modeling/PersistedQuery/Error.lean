/-!
# Errors

An error belongs to a stage of a run and has a message; some carry a context, which is shown on a line of its own.
-/

namespace PersistedQuery

/-- The stage of a run that an error arose in.  An error that names no stage arose while a document was transformed. -/
inductive Stage where
  | transform
  | serialize
  | config
  deriving DecidableEq

instance : Inhabited Stage := ⟨.transform⟩

def Stage.name : Stage → String
  | .transform => "Transform"
  | .serialize => "Serialize"
  | .config => "Config"

structure Error where
  message : String
  context : Option String := none
  stage : Stage := default
  deriving DecidableEq

/-- The stage and the message, without the context. -/
def Error.summary (e : Error) : String := e.stage.name ++ " Error: " ++ e.message

/-- The stage, the message and the context. -/
def Error.report (e : Error) : String :=
  match e.context with
  | some context => e.summary ++ "\n" ++ context
  | none => e.summary

/-- The report between line breaks. -/
def Error.block (e : Error) : String := "\n" ++ e.report ++ "\n"

end PersistedQuery
