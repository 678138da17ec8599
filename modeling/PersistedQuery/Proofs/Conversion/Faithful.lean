import PersistedQuery.Proofs.Conversion.Range
import PersistedQuery.Proofs.Decimal.Reading
import PersistedQuery.Proofs.Maps

/-!
# Converted documents tell the parsed ones

Two parsed values are the same if they are the same tree, the objects in them taken as maps from names to values
(`Value.Same`).  Converted values are equal exactly for parsed values that are the same: the text of a number tells the
number, and an object keeps the value of each name.  So converted documents are equal exactly for parsed documents with
the same values in the same places (`Document.ofParsed_eq_iff`).
-/

namespace PersistedQuery

/-! ### The same values -/

/-- Two values are the same tree, where an object is a map from names to values. -/
inductive Value.Same {ν : Type} : Value ν → Value ν → Prop
  | refl (v : Value ν) : Value.Same v v
  | list {as bs : List (Value ν)} (items : List.Forall₂ Value.Same as bs) : Value.Same (.list as) (.list bs)
  | object {as bs : List (Binding (Value ν))}
    (fields : ∀ name, Option.Rel Value.Same (Binding.getLast? as name) (Binding.getLast? bs name)) :
    Value.Same (.object as) (.object bs)

section

variable {ν : Type}

theorem Value.same_list_iff (as bs : List (Value ν)) :
    (Value.list as).Same (.list bs) ↔ List.Forall₂ Value.Same as bs := by
  constructor
  · intro same
    cases same with
    | refl => exact List.forall₂_same.2 fun v _ => .refl v
    | list items => exact items
  · exact .list

theorem Value.same_object_iff (as bs : List (Binding (Value ν))) : (Value.object as).Same (.object bs) ↔
    ∀ name, Option.Rel Value.Same (Binding.getLast? as name) (Binding.getLast? bs name) := by
  constructor
  · intro same name
    cases same with
    | refl =>
      cases Binding.getLast? as name with
      | none => exact .none
      | some v => exact .some (.refl v)
    | object fields => exact fields name
  · exact .object

end

/-! ### Numbers -/

private theorem repr_inj {m n : Int} : m.repr = n.repr ↔ m = n := by
  constructor
  · intro same
    rw [← Text.readInt_repr m, same, Text.readInt_repr]
  · rintro rfl
    rfl

private theorem Number.numeral_float_eq_ok {x : Double} {a : Numeral} (h : (Number.float x).numeral = .ok a) :
    x.isFinite = true ∧ a = .float (String.ofList (x.text documentFloat)) := by
  simp only [Number.numeral] at h
  split at h
  · rename_i finite
    cases h
    exact ⟨finite, rfl⟩
  · cases h

/-- Integers are told by their text, finite floats by theirs, and the two kinds stay apart. -/
theorem Number.reflects_numeral (n : Number) : Reflects Number.numeral Eq n := by
  intro m a b ha hb
  cases n with
  | int i =>
    cases ha
    cases m with
    | int j =>
      cases hb
      rw [Numeral.int.injEq, repr_inj, Int64.toInt_inj, Number.int.injEq]
    | float y =>
      obtain ⟨-, rfl⟩ := Number.numeral_float_eq_ok hb
      exact iff_of_false nofun nofun
  | float x =>
    obtain ⟨finite, rfl⟩ := Number.numeral_float_eq_ok ha
    cases m with
    | int j =>
      cases hb
      exact iff_of_false nofun nofun
    | float y =>
      obtain ⟨finite', rfl⟩ := Number.numeral_float_eq_ok hb
      rw [Numeral.float.injEq, String.ofList_inj, Double.text_inj documentFloat finite finite', Number.float.injEq]

/-! ### Values and documents -/

/-- What value was converted, for each kind of outcome. -/
private theorem Value.ofParsed_eq_ok {v : Value Number} {a : Value Numeral} (h : v.ofParsed = .ok a) :
    match a with
    | .variable name => v = .variable name
    | .string content => v = .string content
    | .number m => ∃ n, n.numeral = .ok m ∧ v = .number n
    | .boolean b => v = .boolean b
    | .enum name => v = .enum name
    | .list as => ∃ items, items.mapM Value.ofParsed = .ok as ∧ v = .list items
    | .object bs => ∃ fields, (Binding.byName fields).mapM (Binding.mapM Value.ofParsed) = .ok bs ∧ v = .object fields
    | .null => v = .null := by
  cases v with
  | number n =>
    obtain ⟨m, hm, rfl⟩ := map_eq_ok_iff.1 h
    exact ⟨n, hm, rfl⟩
  | list items =>
    rw [Value.ofParsed_list] at h
    obtain ⟨as, has, rfl⟩ := map_eq_ok_iff.1 h
    exact ⟨items, has, rfl⟩
  | object fields =>
    rw [Value.ofParsed_object] at h
    obtain ⟨bs, hbs, rfl⟩ := map_eq_ok_iff.1 h
    exact ⟨fields, hbs, rfl⟩
  | _ =>
    cases h
    rfl

/-- A value is told from all others if it alone has its outcome and it is the same as no other. -/
private theorem Value.reflects_of_unique {v : Value Number}
    (only : ∀ (a : Value Numeral) (w : Value Number), v.ofParsed = .ok a → w.ofParsed = .ok a → w = v)
    (same : ∀ w : Value Number, v.Same w → w = v) : Reflects Value.ofParsed Value.Same v := by
  intro w a b ha hb
  constructor
  · rintro rfl
    rw [only a w ha hb]
    exact .refl v
  · intro h
    rw [same w h, ha] at hb
    exact Except.ok.inj hb

/-- Converted values are equal exactly if the parsed values are the same. -/
theorem Value.reflects_ofParsed (v : Value Number) : Reflects Value.ofParsed Value.Same v := by
  induction v using Value.induction with
  | list items ih =>
    intro w a b ha hb
    rw [Value.ofParsed_list] at ha
    obtain ⟨as, has, rfl⟩ := map_eq_ok_iff.1 ha
    have each := reflects_listMapM ih
    constructor
    · rintro rfl
      obtain ⟨items', has', rfl⟩ := Value.ofParsed_eq_ok hb
      exact .list ((each has has').1 rfl)
    · intro same
      obtain ⟨items', rfl⟩ : ∃ items', w = .list items' := by cases same <;> exact ⟨_, rfl⟩
      rw [Value.ofParsed_list] at hb
      obtain ⟨bs, hbs, rfl⟩ := map_eq_ok_iff.1 hb
      rw [(each has hbs).2 ((Value.same_list_iff ..).1 same)]
  | object fields ih =>
    intro w a b ha hb
    rw [Value.ofParsed_object] at ha
    obtain ⟨as, has, rfl⟩ := map_eq_ok_iff.1 ha
    have each := reflects_listMapM fun b mem => Binding.reflects_mapM (ih b (Binding.mem_of_mem_byName mem))
    constructor
    · rintro rfl
      obtain ⟨fields', has', rfl⟩ := Value.ofParsed_eq_ok hb
      exact .object ((Binding.forall₂_byName_iff ..).1 ((each has has').1 rfl))
    · intro same
      obtain ⟨fields', rfl⟩ : ∃ fields', w = .object fields' := by cases same <;> exact ⟨_, rfl⟩
      rw [Value.ofParsed_object] at hb
      obtain ⟨bs, hbs, rfl⟩ := map_eq_ok_iff.1 hb
      rw [(each has hbs).2 ((Binding.forall₂_byName_iff ..).2 ((Value.same_object_iff ..).1 same))]
  | number n =>
    apply Value.reflects_of_unique
    · intro a w ha hb
      obtain ⟨m, hm, rfl⟩ := map_eq_ok_iff.1 ha
      obtain ⟨n', hm', rfl⟩ := Value.ofParsed_eq_ok hb
      rw [(n.reflects_numeral hm hm').1 rfl]
    · rintro w ⟨⟩
      rfl
  | _ =>
    apply Value.reflects_of_unique
    · intro a w ha hb
      cases ha
      exact Value.ofParsed_eq_ok hb
    · rintro w ⟨⟩
      rfl

/-- Where two parsed documents are both converted, the outcomes are equal exactly if the parsed documents have the same
words and the same values in the same places, be a query written in full or as its selection set alone. -/
theorem Document.ofParsed_eq_iff {d e : ParsedDocument} {a b : Document Numeral} (hd : Document.ofParsed d = .ok a)
    (he : Document.ofParsed e = .ok b) : a = b ↔ d.Rel Value.Same e := by
  rw [← ParsedDocument.rel_expand_iff]
  exact Document.reflects_mapM Value.reflects_ofParsed d.expand hd he

/-- A shorthand query and one with the fields of an object in another order are the same; a default `null` and no
default are not. -/
theorem Document.rel_reordered_and_not_rel_default :
    ParsedDocument.Rel Value.Same
        ⟨[.shorthand [.field ⟨none, "f", [⟨"a", .object
          [⟨"x", .number (.int 1)⟩, ⟨"y", .number (.float ⟨0x3ff8000000000000⟩)⟩]⟩], [], []⟩]]⟩
        ⟨[.operation ⟨.query, none, [], [], [.field ⟨none, "f", [⟨"a", .object
          [⟨"y", .number (.float ⟨0x3ff8000000000000⟩)⟩, ⟨"x", .number (.int 1)⟩]⟩], [], []⟩]⟩]⟩ ∧
      ¬ ParsedDocument.Rel Value.Same
        ⟨[.operation ⟨.query, none, [⟨"v", .named "T", some .null, []⟩], [], []⟩]⟩
        ⟨[.operation ⟨.query, none, [⟨"v", .named "T", none, []⟩], [], []⟩]⟩ := by
  constructor
  · exact (Document.ofParsed_eq_iff rfl rfl).1 rfl
  · intro same
    have equal := (Document.ofParsed_eq_iff rfl rfl).2 same
    cases equal

end PersistedQuery
