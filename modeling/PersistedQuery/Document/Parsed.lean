import PersistedQuery.Decimal.Layout
import PersistedQuery.Document.Traversal
import PersistedQuery.Error

/-!
# Parsed documents

What a parser hands over: numbers are machine numbers, an object is a map that was filled in the order of writing, and a
query may be written as its selection set alone.  `Document.ofParsed` makes a document of it that can be written; the
only thing that has no written form is a float that is not finite.
-/

namespace PersistedQuery

/-- A number as a parser reads it. -/
inductive Number where
  | int (n : Int64)
  | float (x : Double)
  deriving DecidableEq

inductive ParsedDefinition where
  /-- A selection set that stands for a query. -/
  | shorthand (set : SelectionSet Number)
  | operation (o : Operation Number)
  | fragment (f : Fragment Number)
  deriving DecidableEq

structure ParsedDocument where
  definitions : List ParsedDefinition
  deriving DecidableEq

def ParsedDefinition.expand : ParsedDefinition → Definition Number
  | .shorthand set => .operation (.shorthand set)
  | .operation o => .operation o
  | .fragment f => .fragment f

/-- The document with each shorthand query in its full form. -/
def ParsedDocument.expand (d : ParsedDocument) : Document Number := ⟨d.definitions.map ParsedDefinition.expand⟩

/-! ### Objects as maps -/

section

variable {ν : Type}

mutual

/-- The value in which each object has its fields in the order of their names, a later field replacing an earlier one
of the same name. -/
def Value.ordered : Value ν → Value ν
  | .list items => .list (Value.orderedItems items)
  | .object fields => .object (Binding.byName (Value.orderedFields fields))
  | v => v

def Value.orderedItems : List (Value ν) → List (Value ν)
  | [] => []
  | v :: vs => v.ordered :: Value.orderedItems vs

def Value.orderedFields : List (Binding (Value ν)) → List (Binding (Value ν))
  | [] => []
  | b :: bs => ⟨b.name, b.value.ordered⟩ :: Value.orderedFields bs

end

end

/-! ### Numbers as they are written -/

/-- A float of a document has its shortest digits, ties going up.  The digits stand around a point from 0.0001 up to
16 digits before it. -/
def documentFloat : Layout := ⟨-4, 15, .up⟩

def Number.numeral : Number → Except Error Numeral
  | .int n => pure (.int n.toInt.repr)
  | .float x =>
    let text := String.ofList (x.text documentFloat)
    if x.isFinite then pure (.float text)
    else throw { message := "Float value is out of range", context := text }

def Value.ofParsed (v : Value Number) : Except Error (Value Numeral) := v.ordered.mapM Number.numeral

/-- The document as it can be written, or the first error in the order of writing. -/
def Document.ofParsed (d : ParsedDocument) : Except Error (Document Numeral) := d.expand.mapM Value.ofParsed

end PersistedQuery
