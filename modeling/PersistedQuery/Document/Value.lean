import PersistedQuery.Binding

/-!
# Input values

The values that stand in arguments, in objects and as defaults of variables, and the directives that carry them.  All
of them are built over a type `ν` of numbers: `Numeral` in a document that can be written, `Number` in one that was
just parsed.

* `Value.beq_iff`: values are compared node by node, numbers by `ν`.
-/

namespace PersistedQuery

/-- A number as it is written, which is not checked. -/
inductive Numeral where
  | int (text : String)
  | float (text : String)
  deriving DecidableEq

/-- An input value.  The fields of an object keep their order, and a name may repeat. -/
inductive Value (ν : Type) where
  | variable (name : String)
  | string (content : String)
  | number (n : ν)
  | boolean (b : Bool)
  | enum (name : String)
  | list (items : List (Value ν))
  | object (fields : List (Binding (Value ν)))
  | null

abbrev Argument (ν : Type) := Binding (Value ν)

/-- A directive such as `@skip`, with its arguments. -/
structure Directive (ν : Type) where
  name : String
  arguments : List (Argument ν)

/-! ### Equality of values -/

section Equality

variable {ν : Type} [DecidableEq ν]

mutual

/-- Whether two values are the same tree. -/
def Value.beq : Value ν → Value ν → Bool
  | .variable a, .variable b => a = b
  | .string a, .string b => a = b
  | .number a, .number b => a = b
  | .boolean a, .boolean b => a = b
  | .enum a, .enum b => a = b
  | .list a, .list b => Value.beqItems a b
  | .object a, .object b => Value.beqFields a b
  | .null, .null => true
  | _, _ => false

private def Value.beqItems : List (Value ν) → List (Value ν) → Bool
  | [], [] => true
  | a :: as, b :: bs => a.beq b && Value.beqItems as bs
  | _, _ => false

private def Value.beqFields : List (Binding (Value ν)) → List (Binding (Value ν)) → Bool
  | [], [] => true
  | a :: as, b :: bs => a.name = b.name && a.value.beq b.value && Value.beqFields as bs
  | _, _ => false

end

mutual

theorem Value.beq_iff (a b : Value ν) : a.beq b = true ↔ a = b := by
  match a with
  | .list as => cases b <;> simp [Value.beq, Value.beqItems_iff]
  | .object as => cases b <;> simp [Value.beq, Value.beqFields_iff]
  | .variable _ | .string _ | .number _ | .boolean _ | .enum _ | .null => cases b <;> simp [Value.beq]

private theorem Value.beqItems_iff (as bs : List (Value ν)) : Value.beqItems as bs = true ↔ as = bs := by
  match as, bs with
  | [], [] | [], _ :: _ | _ :: _, [] => simp [Value.beqItems]
  | a :: as, b :: bs => simp [Value.beqItems, a.beq_iff b, Value.beqItems_iff as bs]

private theorem Value.beqFields_iff (as bs : List (Binding (Value ν))) :
    Value.beqFields as bs = true ↔ as = bs := by
  match as, bs with
  | [], [] | [], _ :: _ | _ :: _, [] => simp [Value.beqFields]
  | ⟨n, v⟩ :: as, ⟨m, w⟩ :: bs => simp [Value.beqFields, v.beq_iff w, Value.beqFields_iff as bs]

end

instance : DecidableEq (Value ν) := fun a b => decidable_of_iff (a.beq b = true) (a.beq_iff b)

deriving instance DecidableEq for Directive

end Equality

end PersistedQuery
