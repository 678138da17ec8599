import PersistedQuery.Binding
import PersistedQuery.Decimal.Double

/-!
# JSON values

* `Json.beq_iff`: values are compared node by node, members in their order.
-/

namespace PersistedQuery

/-- A JSON value.  Numbers without a fraction are whole numbers of any size. -/
inductive Json where
  | null
  | bool (b : Bool)
  | int (n : Int)
  | float (x : Double)
  | string (s : String)
  | array (items : List Json)
  | object (members : List (Binding Json))
  deriving Inhabited

namespace Json

/-! ### Equality -/

mutual

/-- Whether two values are the same tree. -/
def beq : Json → Json → Bool
  | .null, .null => true
  | .bool a, .bool b => a = b
  | .int a, .int b => a = b
  | .float a, .float b => a = b
  | .string a, .string b => a = b
  | .array a, .array b => beqItems a b
  | .object a, .object b => beqMembers a b
  | _, _ => false

private def beqItems : List Json → List Json → Bool
  | [], [] => true
  | a :: as, b :: bs => a.beq b && beqItems as bs
  | _, _ => false

private def beqMembers : List (Binding Json) → List (Binding Json) → Bool
  | [], [] => true
  | a :: as, b :: bs => a.name = b.name && a.value.beq b.value && beqMembers as bs
  | _, _ => false

end

mutual

theorem beq_iff (a b : Json) : a.beq b = true ↔ a = b := by
  match a with
  | .array as => cases b <;> simp [beq, beqItems_iff]
  | .object as => cases b <;> simp [beq, beqMembers_iff]
  | .null | .bool _ | .int _ | .float _ | .string _ => cases b <;> simp [beq]

private theorem beqItems_iff (as bs : List Json) : beqItems as bs = true ↔ as = bs := by
  match as, bs with
  | [], [] | [], _ :: _ | _ :: _, [] => simp [beqItems]
  | a :: as, b :: bs => simp [beqItems, a.beq_iff b, beqItems_iff as bs]

private theorem beqMembers_iff (as bs : List (Binding Json)) : beqMembers as bs = true ↔ as = bs := by
  match as, bs with
  | [], [] | [], _ :: _ | _ :: _, [] => simp [beqMembers]
  | ⟨n, v⟩ :: as, ⟨m, w⟩ :: bs => simp [beqMembers, v.beq_iff w, beqMembers_iff as bs]

end

instance : DecidableEq Json := fun a b => decidable_of_iff (a.beq b = true) (a.beq_iff b)

/-! ### Objects as maps -/

mutual

/-- The value in which each object has its members in the order of their names, a later member replacing an earlier
one of the same name. -/
def ordered : Json → Json
  | .array items => .array (orderedItems items)
  | .object members => .object (Binding.byName (orderedMembers members))
  | v => v

def orderedItems : List Json → List Json
  | [] => []
  | v :: vs => v.ordered :: orderedItems vs

def orderedMembers : List (Binding Json) → List (Binding Json)
  | [] => []
  | b :: bs => ⟨b.name, b.value.ordered⟩ :: orderedMembers bs

end

end Json

end PersistedQuery
