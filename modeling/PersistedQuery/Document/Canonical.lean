import PersistedQuery.Document.Basic
import PersistedQuery.Text.Hex
import PersistedQuery.Text.Quoted

/-!
# Canonical text

Every node has one text, on a single line, in which parts are separated by single spaces.  Names and numerals are
written as they are; only the contents of strings are escaped.

* `Value.texts_eq_map`, `Value.fieldTexts_eq_map`, `SelectionSet.texts_eq_map`: the texts of a list of nodes are the
  texts of its members, one by one.
* `Document.text`: definitions without selections are left out of a document.
-/

namespace PersistedQuery

/-- Texts, one after the other, with single spaces between them. -/
def spaced (texts : List (List Char)) : List Char := [' '].intercalate texts

/-- The characters of the general category `Cc`. -/
def isControl (c : Char) : Bool := c.toNat < 0x20 || (0x7f ≤ c.toNat && c.toNat ≤ 0x9f)

/-- In a string literal, a control character without a short escape is written as `u` and four capital hexadecimal
digits. -/
def stringLiteral : Text.Quoting where
  short := Text.sevenShort
  numbered := isControl
  numeral n := 'u' :: (Text.hex 4 n).map Char.toUpper

/-- A name before what it names. -/
def labelled (name : String) (text : List Char) : List Char := name.toList ++ ": ".toList ++ text

/-! ### Values -/

def Numeral.text : Numeral → List Char
  | .int text | .float text => text.toList

/-- A variable, as it is used and as it is defined. -/
def variableText (name : String) : List Char := '$' :: name.toList

mutual

def Value.text : Value Numeral → List Char
  | .variable name => variableText name
  | .string content => stringLiteral.quote content.toList
  | .number n => n.text
  | .boolean true => "true".toList
  | .boolean false => "false".toList
  | .enum name => name.toList
  | .list items => '[' :: spaced (Value.texts items) ++ [']']
  | .object fields => '\x7b' :: spaced (Value.fieldTexts fields) ++ ['\x7d']
  | .null => "null".toList

/-- The texts of the items of a list. -/
def Value.texts : List (Value Numeral) → List (List Char)
  | [] => []
  | v :: vs => v.text :: Value.texts vs

/-- The texts of the fields of an object. -/
def Value.fieldTexts : List (Binding (Value Numeral)) → List (List Char)
  | [] => []
  | b :: bs => labelled b.name b.value.text :: Value.fieldTexts bs

end

/-- An argument, or a field of an object. -/
def Binding.text (b : Binding (Value Numeral)) : List Char := labelled b.name b.value.text

theorem Value.texts_eq_map (vs : List (Value Numeral)) : Value.texts vs = vs.map Value.text := by
  induction vs with
  | nil => rfl
  | cons v vs ih => simp [Value.texts, ih]

theorem Value.fieldTexts_eq_map (bs : List (Binding (Value Numeral))) :
    Value.fieldTexts bs = bs.map Binding.text := by
  induction bs with
  | nil => rfl
  | cons b bs ih => simp [Value.fieldTexts, ih, Binding.text]

/-! ### Arguments and directives -/

/-- A list of arguments or of variables in parentheses, or nothing for an empty one. -/
def parenthesized (texts : List (List Char)) : List Char :=
  if texts.isEmpty then [] else '(' :: spaced texts ++ [')']

def argumentsText (arguments : List (Argument Numeral)) : List Char :=
  parenthesized (arguments.map Binding.text)

def Directive.text (d : Directive Numeral) : List Char := '@' :: d.name.toList ++ argumentsText d.arguments

/-- Each directive follows a space, so that the whole can follow what it annotates. -/
def directivesText (directives : List (Directive Numeral)) : List Char :=
  directives.flatMap fun d => ' ' :: d.text

/-! ### Selections -/

/-- The texts of selections in braces, or nothing for an empty set. -/
def braced (texts : List (List Char)) : List Char :=
  if texts.isEmpty then [] else "\x7b ".toList ++ spaced texts ++ " \x7d".toList

def FragmentSpread.text (s : FragmentSpread Numeral) : List Char :=
  "...".toList ++ s.name.toList ++ directivesText s.directives

mutual

def Selection.text : Selection Numeral → List Char
  | .field f =>
    f.aliasName.elim f.name.toList (labelled · f.name.toList) ++ argumentsText f.arguments ++
      directivesText f.directives ++
      if f.selectionSet.isEmpty then [] else ' ' :: braced (SelectionSet.texts f.selectionSet)
  | .spread s => s.text
  | .inlineFragment f =>
    "...".toList ++ (f.typeCondition.elim [] fun t => " on ".toList ++ t.toList) ++ directivesText f.directives ++
      ' ' :: braced (SelectionSet.texts f.selectionSet)

/-- The texts of the selections of a set. -/
def SelectionSet.texts : SelectionSet Numeral → List (List Char)
  | [] => []
  | s :: set => s.text :: SelectionSet.texts set

end

def Field.text (f : Field Numeral (Selection Numeral)) : List Char := (Selection.field f).text

def InlineFragment.text (f : InlineFragment Numeral (Selection Numeral)) : List Char :=
  (Selection.inlineFragment f).text

def SelectionSet.text (set : SelectionSet Numeral) : List Char := braced (SelectionSet.texts set)

theorem SelectionSet.texts_eq_map (set : SelectionSet Numeral) : SelectionSet.texts set = set.map Selection.text := by
  induction set with
  | nil => rfl
  | cons s set ih => simp [SelectionSet.texts, ih]

/-! ### Definitions -/

def TypeRef.text : TypeRef → List Char
  | .named name => name.toList
  | .list item => '[' :: item.text ++ [']']
  | .nonNull inner => inner.text ++ ['!']

def VariableDefinition.text (v : VariableDefinition Numeral) : List Char :=
  variableText v.name ++ ": ".toList ++ v.type.text ++
    (v.defaultValue.elim [] fun value => " = ".toList ++ value.text) ++ directivesText v.directives

def variableDefinitionsText (definitions : List (VariableDefinition Numeral)) : List Char :=
  parenthesized (definitions.map VariableDefinition.text)

def OperationKind.text : OperationKind → List Char
  | .query => "query".toList
  | .mutation => "mutation".toList
  | .subscription => "subscription".toList

/-- An anonymous operation keeps a space before its variables. -/
def Operation.text (o : Operation Numeral) : List Char :=
  if o.isShorthand then
    SelectionSet.text o.selectionSet
  else
    o.kind.text ++
      (match o.name with
        | some name => ' ' :: name.toList
        | none => if o.variableDefinitions.isEmpty then [] else [' ']) ++
      variableDefinitionsText o.variableDefinitions ++ directivesText o.directives ++
      ' ' :: SelectionSet.text o.selectionSet

def Fragment.text (f : Fragment Numeral) : List Char :=
  "fragment ".toList ++ f.name.toList ++ " on ".toList ++ f.typeCondition.toList ++ directivesText f.directives ++
    ' ' :: SelectionSet.text f.selectionSet

def Definition.text : Definition Numeral → List Char
  | .operation o => o.text
  | .fragment f => f.text

/-- The definitions that select something, which are those that a document is written with. -/
def Document.selecting {ν : Type} (d : Document ν) : List (Definition ν) :=
  d.definitions.filter fun definition => !definition.selectionSet.isEmpty

def Document.text (d : Document Numeral) : List Char := spaced (d.selecting.map Definition.text)

/-- The canonical text of a document. -/
def Document.print (d : Document Numeral) : String := String.ofList d.text

end PersistedQuery
