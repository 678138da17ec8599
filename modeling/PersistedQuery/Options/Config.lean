import PersistedQuery.Options.Choice

/-!
# Configuration

The options of a run are read from an object with a member for each option, or from an array that gives them by
position.  What is missing takes its default, and other members are ignored.
-/

namespace PersistedQuery

structure Config where
  output : OutputFormat := default
  typenamePolicy : TypenamePolicy := default
  deriving DecidableEq

instance : Inhabited Config := ⟨{}⟩

namespace Config

/-- The option that a member gives. -/
def member {α : Type} [Inhabited α] (choice : Choice α) (members : List (Binding Json)) (name : String) :
    Except Fault α :=
  match Binding.get? members name with
  | some v => choice.read v
  | none => pure default

/-- The option that the first item gives. -/
def item {α : Type} [Inhabited α] (choice : Choice α) : List Json → Except Fault α
  | v :: _ => choice.read v
  | [] => pure default

def read : Json → Except Fault Config
  | .object members => do
    let output ← member OutputFormat.choice members "output"
    let typenamePolicy ← member TypenamePolicy.choice members "typenamePolicy"
    return { output, typenamePolicy }
  | .array items => do
    let output ← item OutputFormat.choice items
    let typenamePolicy ← item TypenamePolicy.choice items.tail
    if items.length ≤ 2 then return { output, typenamePolicy } else throw (.tooManyItems items.length)
  | v => throw (.wrongType v .config)

/-- The configuration that a host gives, where `null` stands for the default one.  An error shows the whole value with
its members in order. -/
def ofJson (v : Json) : Except Error Config :=
  if v = .null then
    pure default
  else
    (read v.ordered).mapError fun fault =>
      { message := fault.message, context := String.ofList v.ordered.text, stage := .config }

end Config

end PersistedQuery
