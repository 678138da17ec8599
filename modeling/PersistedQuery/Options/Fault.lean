import PersistedQuery.Json.Text
import PersistedQuery.Text.Graphic

/-!
# Faults

Why a JSON value does not give an option or a configuration.
-/

namespace PersistedQuery

/-- What was looked for where a value of another type was found. -/
inductive Expectation where
  /-- The name of a variant, alone or as the only key of an object. -/
  | variant
  /-- The `null` beside the name of a variant. -/
  | nothing
  | config

inductive Fault where
  | wrongType (found : Json) (expected : Expectation)
  /-- An object that should name a variant has no key or several. -/
  | notSingleKey
  | unknownVariant (name : String) (known : List String)
  /-- An array of this length has items for which there is no option. -/
  | tooManyItems (length : Nat)

/-- In a message, a character that is not graphic is written as `u` and its hexadecimal digits in braces. -/
def messageQuoting : Text.Quoting where
  short
    | '"' => some '"'
    | '\\' => some '\\'
    | '\n' => some 'n'
    | '\r' => some 'r'
    | '\t' => some 't'
    | '\x00' => some '0'
    | _ => none
  numbered c := !Text.isGraphic c
  numeral n := 'u' :: '\x7b' :: Nat.toDigits 16 n ++ ['\x7d']

/-- The type of a value; of a simple one also the value. -/
def Json.describe : Json → String
  | .null => "null"
  | .bool true => "boolean `true`"
  | .bool false => "boolean `false`"
  | .int n => "integer `" ++ n.repr ++ "`"
  | .float x => "floating point `" ++ String.ofList (x.text Json.floatLayout) ++ "`"
  | .string s => "string " ++ String.ofList (messageQuoting.quote s.toList)
  | .array _ => "sequence"
  | .object _ => "map"

def Expectation.describe : Expectation → String
  | .variant => "string or map"
  | .nothing => "unit"
  | .config => "struct PluginConfig"

def Fault.message : Fault → String
  | .wrongType found expected => "invalid type: " ++ found.describe ++ ", expected " ++ expected.describe
  | .notSingleKey => "invalid value: map, expected map with a single key"
  | .unknownVariant name known =>
    "unknown variant `" ++ name ++ "`, expected " ++ " or ".intercalate (known.map fun k => "`" ++ k ++ "`")
  | .tooManyItems length =>
    "invalid length " ++ length.repr ++ ", expected fewer elements in array"

end PersistedQuery
