import PersistedQuery.Proofs.Conversion.Shorthand

/-!
# Floats without a written form

Of all that a parsed document can hold only a float that is not finite has no written form.  `ParsedDocument.floats`
lists the floats of a document in the order of writing, the fields of an object in the order of their names and each
name with its last value.  A document is converted unless one of them is not finite, and the first such float is the
one that the error tells (`Document.stopsAt_ofParsed`).
-/

namespace PersistedQuery

/-! ### Floats in the order of writing -/

mutual

/-- The floats of a value, where an object is a map from names to values. -/
def Value.floats : Value Number → List Double
  | .number (.float x) => [x]
  | .list items => Value.itemFloats items
  | .object fields => (Binding.byName (Value.fieldFloats fields)).flatMap (·.value)
  | .variable _ | .string _ | .number (.int _) | .boolean _ | .enum _ | .null => []

/-- The floats of the items of a list. -/
def Value.itemFloats : List (Value Number) → List Double
  | [] => []
  | v :: vs => v.floats ++ Value.itemFloats vs

/-- The floats of each field of an object. -/
def Value.fieldFloats : List (Binding (Value Number)) → List (Binding (List Double))
  | [] => []
  | b :: bs => ⟨b.name, b.value.floats⟩ :: Value.fieldFloats bs

end

/-- The floats of the defaults and the arguments in a document. -/
def ParsedDocument.floats (d : ParsedDocument) : List Double := d.values.flatMap Value.floats

theorem Value.itemFloats_eq_flatMap (vs : List (Value Number)) :
    Value.itemFloats vs = vs.flatMap Value.floats := by
  induction vs with
  | nil => rfl
  | cons v vs ih => simp [Value.itemFloats, ih]

private theorem Value.fieldFloats_eq_map (bs : List (Binding (Value Number))) :
    Value.fieldFloats bs = bs.map (Binding.map Value.floats) := by
  induction bs with
  | nil => rfl
  | cons b bs ih => simp [Value.fieldFloats, ih, Binding.map]

theorem Value.floats_object (fields : List (Binding (Value Number))) :
    (Value.object fields).floats = (Binding.byName fields).flatMap (·.value.floats) := by
  rw [Value.floats, Value.fieldFloats_eq_map, Binding.byName_map, List.flatMap_map]
  rfl

/-! ### Ordered values -/

section

variable {ν : Type}

theorem Value.orderedItems_eq_map (vs : List (Value ν)) : Value.orderedItems vs = vs.map Value.ordered := by
  induction vs with
  | nil => rfl
  | cons v vs ih => simp [Value.orderedItems, ih]

theorem Value.orderedFields_eq_map (bs : List (Binding (Value ν))) :
    Value.orderedFields bs = bs.map (Binding.map Value.ordered) := by
  induction bs with
  | nil => rfl
  | cons b bs ih => simp [Value.orderedFields, ih, Binding.map]

theorem Value.ordered_list (items : List (Value ν)) : (Value.list items).ordered = .list (items.map Value.ordered) := by
  rw [Value.ordered, Value.orderedItems_eq_map]

/-- An object may be ordered before its values are. -/
theorem Value.ordered_object (fields : List (Binding (Value ν))) :
    (Value.object fields).ordered = .object ((Binding.byName fields).map (Binding.map Value.ordered)) := by
  rw [Value.ordered, Value.orderedFields_eq_map, Binding.byName_map]

end

/-! ### Lists and objects -/

theorem Value.ofParsed_list (items : List (Value Number)) :
    (Value.list items).ofParsed = return .list (← items.mapM Value.ofParsed) := by
  rw [Value.ofParsed, Value.ordered_list, Value.mapM, Value.mapItemsM_eq_mapM, List.mapM_map]
  rfl

theorem Value.ofParsed_object (fields : List (Binding (Value Number))) :
    (Value.object fields).ofParsed = return .object (← (Binding.byName fields).mapM (Binding.mapM Value.ofParsed)) := by
  rw [Value.ofParsed, Value.ordered_object, Value.mapM, Value.mapFieldsM_eq_mapM, List.mapM_map]
  rfl

/-! ### The error of a float -/

/-- The name of a double that is not finite.  That of a NaN has no sign. -/
def Double.nonFiniteName (x : Double) : String :=
  if x.fraction = 0 then (if x.isNegative then "-inf" else "inf") else "NaN"

/-- The error that a float gives which is not finite. -/
def Double.rangeError (x : Double) : Error where
  message := "Float value is out of range"
  context := some x.nonFiniteName
  stage := .transform

def Double.rangeErrors (x : Double) : List Error := if x.isFinite = false then [x.rangeError] else []

private theorem Double.text_of_not_isFinite {x : Double} (h : x.isFinite = false) (l : Layout) :
    String.ofList (x.text l) = x.nonFiniteName := by
  unfold Double.text Double.nonFiniteName
  rw [if_neg (by simp [h])]
  by_cases infinite : x.fraction = 0
  · rw [if_pos infinite, if_pos infinite]
    cases x.isNegative <;> rfl
  · rw [if_neg infinite, if_neg infinite, String.ofList_toList]

private theorem Number.stopsAt_numeral (x : Double) : StopsAt (Number.float x).numeral x.rangeErrors := by
  simp only [Number.numeral]
  unfold Double.rangeErrors
  by_cases infinite : x.isFinite = false
  · rw [if_neg (by simp [infinite]), if_pos infinite, Double.text_of_not_isFinite infinite]
    rfl
  · rw [if_pos (by simpa using infinite), if_neg infinite]
    exact stopsAt_pure _

/-- A value is converted unless there is a float in it that is not finite; the first such float gives the error. -/
theorem Value.stopsAt_ofParsed (v : Value Number) : StopsAt v.ofParsed (v.floats.flatMap Double.rangeErrors) := by
  induction v using Value.induction with
  | var name => exact stopsAt_pure _
  | string content => exact stopsAt_pure _
  | number n =>
    cases n with
    | int n => exact ⟨_, rfl⟩
    | float x =>
      rw [Value.floats, List.flatMap_singleton]
      exact (Number.stopsAt_numeral x).map _
  | boolean b => exact stopsAt_pure _
  | enum name => exact stopsAt_pure _
  | list items ih =>
    rw [Value.floats, Value.itemFloats_eq_flatMap, List.flatMap_assoc, Value.ofParsed_list]
    exact (stopsAt_mapM ih).map _
  | object fields ih =>
    rw [Value.floats_object, List.flatMap_assoc, Value.ofParsed_object]
    refine (stopsAt_mapM fun b mem => ?_).map _
    exact (ih b (Binding.mem_of_mem_byName mem)).map _
  | null => exact stopsAt_pure _

theorem Document.stopsAt_ofParsed (d : ParsedDocument) :
    StopsAt (Document.ofParsed d) (d.floats.flatMap Double.rangeErrors) := by
  rw [ParsedDocument.floats, List.flatMap_assoc, ← d.values_expand]
  exact Document.stopsAt_mapM Value.stopsAt_ofParsed d.expand

/-- Converting a parsed document fails exactly if one of its floats is not finite.  The error arises while a document is
transformed; it says that a float is out of range and names the first such float in the order of writing. -/
theorem Document.ofParsed_eq_error_iff (d : ParsedDocument) :
    ((∃ e, Document.ofParsed d = .error e) ↔ ∃ x ∈ d.floats, x.isFinite = false) ∧
    ∀ e, Document.ofParsed d = .error e ↔
      ∃ before x after, d.floats = before ++ x :: after ∧ (∀ y ∈ before, y.isFinite = true) ∧ x.isFinite = false ∧
        e = { stage := .transform, message := "Float value is out of range", context := some x.nonFiniteName } := by
  have stops := Document.stopsAt_ofParsed d
  constructor
  · rw [stops.fails_iff]
    simp [Double.rangeErrors]
  · intro e
    have first := stops.eq_error_iff e
    simp only [Bool.not_eq_false] at first
    exact first

end PersistedQuery
