/-!
# Bindings

A name and what is given to it: an argument, a field of an object, a member of a JSON object.  A list of bindings in
which names repeat is read as a map in two ways, with the names in their order or in order of arrival.  Either way a
name keeps the value that it was given last.

* `Binding.ordered_byName`: the names of `byName` increase strictly by code point.
* `Binding.get?_byName`, `Binding.get?_byArrival`: both forms hold the last value of each name.
* `Binding.map_name_byArrival`: the names of `byArrival` stand in the order in which they first occur.
* `Binding.byName_map`: what is done to each value may be done before or after.
-/

namespace PersistedQuery

/-- A name and what is given to it. -/
structure Binding (α : Type) where
  name : String
  value : α
  deriving DecidableEq

namespace Binding

variable {α β : Type}

def map (f : α → β) (b : Binding α) : Binding β := ⟨b.name, f b.value⟩

def mapM {m : Type → Type} [Monad m] (f : α → m β) (b : Binding α) : m (Binding β) :=
  return ⟨b.name, ← f b.value⟩

/-- The first value of a name. -/
def get? (bs : List (Binding α)) (name : String) : Option α := (bs.find? (·.name = name)).map (·.value)

/-- The last value of a name. -/
def getLast? (bs : List (Binding α)) (name : String) : Option α := get? bs.reverse name

/-- Puts a binding at the place of its name in an ordered list, instead of one with the same name. -/
def insert (b : Binding α) : List (Binding α) → List (Binding α)
  | [] => [b]
  | c :: cs =>
    if b.name < c.name then b :: c :: cs
    else if c.name = b.name then b :: cs
    else c :: insert b cs

/-- Puts a binding in the place of one with the same name, or at the end. -/
def put (b : Binding α) : List (Binding α) → List (Binding α)
  | [] => [b]
  | c :: cs => if c.name = b.name then b :: cs else c :: put b cs

/-- Each name once, in the order of names. -/
def byName (bs : List (Binding α)) : List (Binding α) := bs.foldl (fun acc b => insert b acc) []

/-- Each name once, where it first occurs. -/
def byArrival (bs : List (Binding α)) : List (Binding α) := bs.foldl (fun acc b => put b acc) []

/-! ### The order of names -/

/-- The names increase strictly. -/
def Ordered (bs : List (Binding α)) : Prop := bs.Pairwise fun b c => b.name < c.name

private theorem mem_insert {b c : Binding α} {cs : List (Binding α)} (h : c ∈ insert b cs) : c = b ∨ c ∈ cs := by
  induction cs with
  | nil => simpa [insert] using h
  | cons d ds ih => grind [insert]

theorem name_lt_of_not_lt {s t : String} (h : ¬ s < t) (ne : t ≠ s) : t < s :=
  String.not_le.1 fun le => ne (String.le_antisymm (String.not_lt.1 h) le)

theorem ordered_insert {b : Binding α} {cs : List (Binding α)} (h : Ordered cs) : Ordered (insert b cs) := by
  induction cs with
  | nil => simp [insert, Ordered]
  | cons d ds ih =>
    have hd := List.pairwise_cons.1 h
    unfold insert
    split
    · rename_i lt
      refine List.pairwise_cons.2 ⟨fun c hc => ?_, h⟩
      rcases List.mem_cons.1 hc with rfl | hc
      · exact lt
      · exact String.lt_trans lt (hd.1 c hc)
    · split
      · rename_i eq
        exact List.pairwise_cons.2 ⟨fun c hc => eq ▸ hd.1 c hc, hd.2⟩
      · rename_i nlt ne
        refine List.pairwise_cons.2 ⟨fun c hc => ?_, ih hd.2⟩
        rcases mem_insert hc with rfl | hc
        · exact name_lt_of_not_lt nlt ne
        · exact hd.1 c hc

theorem ordered_byName (bs : List (Binding α)) : Ordered (byName bs) := by
  suffices ∀ acc, Ordered acc → Ordered (bs.foldl (fun acc b => insert b acc) acc) from this [] .nil
  induction bs with
  | nil => exact fun _ h => h
  | cons b bs ih => exact fun acc h => ih _ (ordered_insert h)

theorem mem_of_mem_byName {bs : List (Binding α)} {b : Binding α} (h : b ∈ byName bs) : b ∈ bs := by
  suffices ∀ acc, b ∈ bs.foldl (fun acc b => insert b acc) acc → b ∈ acc ∨ b ∈ bs by
    simpa using this [] h
  clear h
  induction bs with
  | nil => exact fun acc h => .inl h
  | cons c bs ih =>
    intro acc h
    rcases ih (insert c acc) h with h | h
    · rcases mem_insert h with rfl | h
      · exact .inr (List.mem_cons_self ..)
      · exact .inl h
    · exact .inr (List.mem_cons_of_mem _ h)

private theorem insert_map (f : α → β) (b : Binding α) (cs : List (Binding α)) :
    insert (b.map f) (cs.map (Binding.map f)) = (insert b cs).map (Binding.map f) := by
  induction cs with
  | nil => rfl
  | cons c cs ih =>
    simp only [List.map_cons, insert, Binding.map] at ih ⊢
    split
    · rfl
    · split
      · rfl
      · rw [ih]
        rfl

theorem byName_map (f : α → β) (bs : List (Binding α)) :
    byName (bs.map (Binding.map f)) = (byName bs).map (Binding.map f) := by
  suffices ∀ acc, (bs.map (Binding.map f)).foldl (fun acc b => insert b acc) (acc.map (Binding.map f)) =
      (bs.foldl (fun acc b => insert b acc) acc).map (Binding.map f) from this []
  induction bs with
  | nil => exact fun acc => rfl
  | cons b bs ih =>
    intro acc
    rw [List.map_cons, List.foldl_cons, insert_map]
    exact ih (insert b acc)

/-! ### The value of a name -/

theorem get?_insert (b : Binding α) (cs : List (Binding α)) (name : String) :
    get? (insert b cs) name = if b.name = name then some b.value else get? cs name := by
  induction cs with
  | nil => by_cases h : b.name = name <;> simp [insert, get?, h]
  | cons c cs ih => grind [insert, get?]

theorem get?_put (b : Binding α) (cs : List (Binding α)) (name : String) :
    get? (put b cs) name = if b.name = name then some b.value else get? cs name := by
  induction cs with
  | nil => by_cases h : b.name = name <;> simp [put, get?, h]
  | cons c cs ih => grind [put, get?]

private theorem get?_foldl {step : Binding α → List (Binding α) → List (Binding α)} (name : String)
    (h : ∀ b cs, get? (step b cs) name = if b.name = name then some b.value else get? cs name)
    (bs acc : List (Binding α)) :
    get? (bs.foldl (fun acc b => step b acc) acc) name = (getLast? bs name).or (get? acc name) := by
  induction bs generalizing acc with
  | nil => simp [getLast?, get?]
  | cons b bs ih =>
    rw [List.foldl_cons, ih, h]
    simp only [getLast?, get?, List.reverse_cons, List.find?_append, List.find?_singleton]
    cases bs.reverse.find? (·.name = name) <;> by_cases e : b.name = name <;> simp [e]

theorem get?_byName (bs : List (Binding α)) (name : String) : get? (byName bs) name = getLast? bs name := by
  simpa [byName, get?] using get?_foldl name (fun b cs => get?_insert b cs name) bs []

theorem get?_byArrival (bs : List (Binding α)) (name : String) : get? (byArrival bs) name = getLast? bs name := by
  simpa [byArrival, get?] using get?_foldl name (fun b cs => get?_put b cs name) bs []

/-! ### The order of arrival -/

theorem map_name_put (b : Binding α) (cs : List (Binding α)) :
    (put b cs).map (·.name) =
      if b.name ∈ cs.map (·.name) then cs.map (·.name) else cs.map (·.name) ++ [b.name] := by
  induction cs with
  | nil => simp [put]
  | cons c cs ih =>
    unfold put
    by_cases same : c.name = b.name
    · simp [same]
    · rw [if_neg same, List.map_cons, ih]
      simp only [List.map_cons, List.mem_cons, Ne.symm same, false_or, List.cons_append]
      split <;> rfl

theorem map_name_byArrival (bs : List (Binding α)) : (byArrival bs).map (·.name) = (bs.map (·.name)).eraseDups := by
  -- `seen` has the names that were put there so far, also those that stood there already
  suffices ∀ acc seen, acc.map (·.name) = seen.eraseDups →
      (bs.foldl (fun acc b => put b acc) acc).map (·.name) = (seen ++ bs.map (·.name)).eraseDups from
    this [] [] rfl
  induction bs with
  | nil => exact fun acc seen names => by simpa using names
  | cons b bs ih =>
    intro acc seen names
    have step : (put b acc).map (·.name) = (seen ++ [b.name]).eraseDups := by
      rw [map_name_put, names, List.eraseDups_append]
      by_cases known : b.name ∈ seen <;> simp [List.removeAll, List.eraseDups_cons, known]
    have whole := ih (put b acc) (seen ++ [b.name]) step
    rw [List.append_assoc] at whole
    exact whole

theorem nodup_byArrival (bs : List (Binding α)) : ((byArrival bs).map (·.name)).Nodup := by
  suffices ∀ acc, (acc.map (·.name)).Nodup → ((bs.foldl (fun acc b => put b acc) acc).map (·.name)).Nodup from
    this [] .nil
  induction bs with
  | nil => exact fun _ h => h
  | cons b bs ih =>
    intro acc h
    refine ih (put b acc) ?_
    rw [map_name_put]
    by_cases known : b.name ∈ acc.map (·.name)
    · rwa [if_pos known]
    · rw [if_neg known, List.nodup_append]
      refine ⟨h, by simp, ?_⟩
      rintro n hn _ (hb : _ ∈ [b.name]) rfl
      exact known (List.mem_singleton.1 hb ▸ hn)

/-- Where each name occurs once, a binding is found under its name. -/
theorem get?_eq_some_iff_mem {bs : List (Binding α)} (nodup : (bs.map (·.name)).Nodup) (name : String) (value : α) :
    get? bs name = some value ↔ ⟨name, value⟩ ∈ bs := by
  induction bs with
  | nil => simp [get?]
  | cons b bs ih =>
    rw [List.map_cons, List.nodup_cons] at nodup
    obtain ⟨n, v⟩ := b
    by_cases same : n = name
    · subst same
      have absent (w : α) : ⟨n, w⟩ ∉ bs := fun mem => nodup.1 (List.mem_map.2 ⟨_, mem, rfl⟩)
      simp [get?, absent, eq_comm]
    · have rest := ih nodup.2
      simp_all [get?, Ne.symm same]

theorem get?_eq_none_iff (bs : List (Binding α)) (name : String) : get? bs name = none ↔ name ∉ bs.map (·.name) := by
  simp [get?]

end Binding

end PersistedQuery
