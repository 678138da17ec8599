import PersistedQuery.Manifest.Builder
import PersistedQuery.Proofs.Conversion.Range
import PersistedQuery.Proofs.Maps

/-!
# Objects are converted as maps

A parsed object is filled in the order of writing, and a later field replaces an earlier one of the same name.  At every
depth of a converted value the fields of an object stand in the order of their names, one for each name, with what the
last value of the name is converted to (`Value.Converted`).  A float that is not finite does no harm where its field is
replaced (`Value.Keeps`), and the order in which different names are written does not matter (`Value.Reordered`).

* `Document.ofParsed_reordered`: all of this, and what follows for documents.
-/

namespace PersistedQuery

/-! ### Converted values -/

/-- What a value is converted to. -/
inductive Value.Converted : Value Number → Value Numeral → Prop
  | variable (name : String) : Value.Converted (.variable name) (.variable name)
  | string (content : String) : Value.Converted (.string content) (.string content)
  | number {n : Number} {m : Numeral} (written : n.numeral = .ok m) : Value.Converted (.number n) (.number m)
  | boolean (b : Bool) : Value.Converted (.boolean b) (.boolean b)
  | enum (name : String) : Value.Converted (.enum name) (.enum name)
  | list {as : List (Value Number)} {bs : List (Value Numeral)} (items : List.Forall₂ Value.Converted as bs) :
    Value.Converted (.list as) (.list bs)
  | object {as : List (Binding (Value Number))} {bs : List (Binding (Value Numeral))} (ordered : Binding.Ordered bs)
    (fields : ∀ name, Option.Rel Value.Converted (Binding.getLast? as name) (Binding.get? bs name)) :
    Value.Converted (.object as) (.object bs)
  | null : Value.Converted .null .null

private theorem Value.ofParsed_eq_ok_iff_of_unique {v : Value Number} {r : Value Numeral} (run : v.ofParsed = .ok r)
    (converted : v.Converted r) (only : ∀ w, v.Converted w → w = r) (w : Value Numeral) :
    v.ofParsed = .ok w ↔ v.Converted w := by
  rw [run, Except.ok.injEq]
  constructor
  · rintro rfl
    exact converted
  · intro h
    exact (only w h).symm

theorem Value.ofParsed_eq_ok_iff (v : Value Number) (w : Value Numeral) : v.ofParsed = .ok w ↔ v.Converted w := by
  induction v using Value.induction generalizing w with
  | var name => exact Value.ofParsed_eq_ok_iff_of_unique rfl (.variable name) (by rintro w ⟨⟩; rfl) w
  | string content => exact Value.ofParsed_eq_ok_iff_of_unique rfl (.string content) (by rintro w ⟨⟩; rfl) w
  | number n =>
    have converted : (Value.number n).ofParsed = .ok w ↔ ∃ m, n.numeral = .ok m ∧ w = .number m := map_eq_ok_iff
    rw [converted]
    constructor
    · rintro ⟨m, written, rfl⟩
      exact .number written
    · intro h
      cases h with
      | number written => exact ⟨_, written, rfl⟩
  | boolean b => exact Value.ofParsed_eq_ok_iff_of_unique rfl (.boolean b) (by rintro w ⟨⟩; rfl) w
  | enum name => exact Value.ofParsed_eq_ok_iff_of_unique rfl (.enum name) (by rintro w ⟨⟩; rfl) w
  | list items ih =>
    rw [Value.ofParsed_list, map_eq_ok_iff]
    simp only [mapM_eq_ok_iff ih]
    constructor
    · rintro ⟨bs, each, rfl⟩
      exact .list each
    · intro h
      cases h with
      | list each => exact ⟨_, each, rfl⟩
  | object fields ih =>
    have field : ∀ b ∈ Binding.byName fields, ∀ c,
        Binding.mapM Value.ofParsed b = .ok c ↔ Binding.Rel Value.Converted b c :=
      fun b mem c => Binding.mapM_eq_ok_iff (ih b (Binding.mem_of_mem_byName mem))
    rw [Value.ofParsed_object, map_eq_ok_iff]
    simp only [mapM_eq_ok_iff field, Binding.forall₂_byName_left_iff]
    constructor
    · rintro ⟨bs, ⟨ordered, values⟩, rfl⟩
      exact .object ordered values
    · intro h
      cases h with
      | object ordered values => exact ⟨_, ⟨ordered, values⟩, rfl⟩
  | null => exact Value.ofParsed_eq_ok_iff_of_unique rfl .null (by rintro w ⟨⟩; rfl) w

/-! ### Numbers that are kept -/

/-- The number stands in the value, at some depth, and no field around it is replaced. -/
inductive Value.Keeps (n : Number) : Value Number → Prop
  | number : Value.Keeps n (.number n)
  | item {v : Value Number} {items : List (Value Number)} (mem : v ∈ items) (kept : Value.Keeps n v) :
    Value.Keeps n (.list items)
  | field {name : String} {v : Value Number} {fields : List (Binding (Value Number))}
    (last : Binding.getLast? fields name = some v) (kept : Value.Keeps n v) : Value.Keeps n (.object fields)

theorem Value.mem_floats_iff (x : Double) (v : Value Number) : x ∈ v.floats ↔ v.Keeps (.float x) := by
  induction v using Value.induction with
  | number n =>
    constructor
    · intro mem
      cases n with
      | int n => cases mem
      | float y =>
        obtain rfl := List.mem_singleton.1 mem
        exact .number
    · rintro ⟨⟩
      exact List.mem_singleton.2 rfl
  | list items ih =>
    rw [Value.floats, Value.itemFloats_eq_flatMap, List.mem_flatMap]
    constructor
    · rintro ⟨v, mem, kept⟩
      exact .item mem ((ih v mem).1 kept)
    · intro h
      cases h with
      | item mem kept => exact ⟨_, mem, (ih _ mem).2 kept⟩
  | object fields ih =>
    rw [Value.floats_object, List.mem_flatMap]
    constructor
    · rintro ⟨b, mem, kept⟩
      exact .field ((Binding.mem_byName_iff fields b).1 mem) ((ih b (Binding.mem_of_mem_byName mem)).1 kept)
    · intro h
      cases h with
      | @field name v _ last kept =>
        exact ⟨⟨name, v⟩, (Binding.mem_byName_iff fields _).2 last, (ih _ (Binding.mem_of_getLast? last)).2 kept⟩
  | _ => exact iff_of_false (by simp [Value.floats]) (by rintro ⟨⟩)

/-- A value is converted unless it keeps a float that is not finite. -/
theorem Value.ofParsed_fails_iff (v : Value Number) :
    (∃ e, v.ofParsed = .error e) ↔ ∃ x, v.Keeps (.float x) ∧ x.isFinite = false := by
  rw [v.stopsAt_ofParsed.fails_iff]
  simp [Double.rangeErrors, Value.mem_floats_iff]

/-! ### Reordered values -/

section

variable {ν : Type}

/-- The values differ only in the order of fields with different names, in objects at any depth. -/
inductive Value.Reordered : Value ν → Value ν → Prop
  | swap (before : List (Binding (Value ν))) {b c : Binding (Value ν)} (distinct : b.name ≠ c.name)
    (after : List (Binding (Value ν))) :
    Value.Reordered (.object (before ++ b :: c :: after)) (.object (before ++ c :: b :: after))
  | item (before : List (Value ν)) {v w : Value ν} (h : Value.Reordered v w) (after : List (Value ν)) :
    Value.Reordered (.list (before ++ v :: after)) (.list (before ++ w :: after))
  | field (before : List (Binding (Value ν))) (name : String) {v w : Value ν} (h : Value.Reordered v w)
    (after : List (Binding (Value ν))) :
    Value.Reordered (.object (before ++ ⟨name, v⟩ :: after)) (.object (before ++ ⟨name, w⟩ :: after))
  | refl (v : Value ν) : Value.Reordered v v
  | trans {u v w : Value ν} (first : Value.Reordered u v) (second : Value.Reordered v w) : Value.Reordered u w

/-- Fields with pairwise distinct names may stand in any order. -/
theorem Value.reordered_of_perm {as bs : List (Binding (Value ν))} (distinct : (as.map (·.name)).Nodup)
    (perm : as.Perm bs) : (Value.object as).Reordered (.object bs) := by
  -- the fields before those that are permuted stay where they are
  have behind (before : List (Binding (Value ν))) :
      (Value.object (before ++ as)).Reordered (.object (before ++ bs)) := by
    induction perm generalizing before with
    | nil => exact .refl _
    | cons b _ ih =>
      have rest := ih (List.nodup_cons.1 distinct).2 (before ++ [b])
      rwa [List.append_assoc, List.append_assoc] at rest
    | swap b c after =>
      refine .swap before ?_ after
      rintro same
      exact (List.nodup_cons.1 distinct).1 (by simp [same])
    | trans perm _ ih ih' => exact .trans (ih distinct before) (ih' ((perm.map _).nodup_iff.1 distinct) before)
  exact behind []

theorem Value.Reordered.ordered_eq {v w : Value ν} (h : v.Reordered w) : v.ordered = w.ordered := by
  induction h with
  | swap before distinct after => rw [Value.ordered_object, Value.ordered_object, Binding.byName_swap before distinct]
  | item before _ after ih => simp [Value.ordered_list, ih]
  | field before name _ after ih => simp [Value.ordered, Value.orderedFields_eq_map, Binding.map, ih]
  | refl v => rfl
  | trans _ _ ih ih' => rw [ih, ih']

end

theorem Value.Reordered.ofParsed_eq {v w : Value Number} (h : v.Reordered w) : v.ofParsed = w.ofParsed := by
  rw [Value.ofParsed, Value.ofParsed, h.ordered_eq]

/-! ### Documents -/

/-- Documents that differ only in the order of fields have the same outcome, be it an error. -/
theorem Document.ofParsed_eq_of_reordered {d e : ParsedDocument} (h : d.Rel Value.Reordered e) :
    Document.ofParsed d = Document.ofParsed e := by
  have each (v w : Value Number) (reordered : v.Reordered w) : v.ofParsed = w.ofParsed := reordered.ofParsed_eq
  unfold Document.ofParsed
  exact Document.mapM_congr each ((ParsedDocument.rel_expand_iff d e).2 h)

/-- A value is converted with the fields of each object in it in the order of their names, one for each name, with what
the last value of the name is converted to.  It fails exactly if it keeps a float that is not finite.  Fields with
different names, of one object or of objects at any depth, may stand in any order: the outcome is the same, and so are
the text of a document and the entry that is recorded for it. -/
theorem Document.ofParsed_reordered :
    (∀ (v : Value Number) (w : Value Numeral), v.ofParsed = .ok w ↔ v.Converted w) ∧
    (∀ v : Value Number, (∃ e, v.ofParsed = .error e) ↔ ∃ x, v.Keeps (.float x) ∧ x.isFinite = false) ∧
    (∀ as bs : List (Binding (Value Number)), (as.map (·.name)).Nodup → as.Perm bs →
      (Value.object as).Reordered (.object bs)) ∧
    (∀ v w : Value Number, v.Reordered w → v.ofParsed = w.ofParsed) ∧
    ∀ d e : ParsedDocument, d.Rel Value.Reordered e →
      Document.ofParsed d = Document.ofParsed e ∧
        ∀ a b, Document.ofParsed d = .ok a → Document.ofParsed e = .ok b →
          b.print = a.print ∧ ∀ builder : Builder, builder.addDocument b = builder.addDocument a := by
  refine ⟨Value.ofParsed_eq_ok_iff, Value.ofParsed_fails_iff, fun as bs => Value.reordered_of_perm,
    fun v w => Value.Reordered.ofParsed_eq, fun d e reordered => ?_⟩
  have same := Document.ofParsed_eq_of_reordered reordered
  refine ⟨same, fun a b ha hb => ?_⟩
  rw [ha, hb] at same
  cases same
  exact ⟨rfl, fun builder => rfl⟩

/-- The query `{ f(a: value) }`. -/
def ParsedDocument.ofValue (value : Value Number) : ParsedDocument :=
  ⟨[.shorthand [.field ⟨none, "f", [⟨"a", value⟩], [], []⟩]]⟩

/-- The object `{k: 1e999, b: null, k: [{y: true, x: 1}]}`. -/
def Value.replacing : Value Number :=
  .object [⟨"k", .number (.float ⟨0x7ff0000000000000⟩)⟩, ⟨"b", .null⟩,
    ⟨"k", .list [.object [⟨"y", .boolean true⟩, ⟨"x", .number (.int 1)⟩]]⟩]

/-- The object `{b: null, k: 1e999, k: [{x: 1, y: true}]}`. -/
def Value.replacingReordered : Value Number :=
  .object [⟨"b", .null⟩, ⟨"k", .number (.float ⟨0x7ff0000000000000⟩)⟩,
    ⟨"k", .list [.object [⟨"x", .number (.int 1)⟩, ⟨"y", .boolean true⟩]]⟩]

/-- Fields change places in an object and in the object within, and the float that is not finite is replaced. -/
theorem Document.ofParsed_reordered_nested :
    Value.replacing.Reordered Value.replacingReordered ∧
      (Document.ofParsed (.ofValue Value.replacingReordered)).map Document.print =
        .ok "\x7b f(a: \x7bb: null k: [\x7bx: 1 y: true\x7d]\x7d) \x7d" := by
  obtain ⟨-, -, perm, -, documents⟩ := Document.ofParsed_reordered
  have inner := perm [⟨"y", .boolean true⟩, ⟨"x", .number (.int 1)⟩] [⟨"x", .number (.int 1)⟩, ⟨"y", .boolean true⟩]
    (by decide) (.swap _ _ _)
  have outer : Value.replacing.Reordered Value.replacingReordered :=
    .trans (.swap [] (by decide) _) (.field [_, _] "k" (.item [] inner []) [])
  have related : (ParsedDocument.ofValue Value.replacing).Rel Value.Reordered (.ofValue Value.replacingReordered) := by
    refine .cons (.shorthand ?_) .nil
    simp [SelectionSet.Rel, Selection.Rel, Binding.Rel, outer]
  refine ⟨outer, ?_⟩
  rw [← (documents _ _ related).1]
  rfl

end PersistedQuery
