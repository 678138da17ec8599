import PersistedQuery.Document.Canonical

/-!
# Texts that can be told apart from the left

A text is read from the left, and something follows it.  Whether two texts can be told apart then depends on what may
follow: a word ends at the first character that is not of its class (`append_inj_of_stops`), and a list of parts ends
where no further part begins (`Spacing.spaced_append_inj`).
-/

namespace PersistedQuery

/-- The text does not go on with a character of the class. -/
def Stops (p : Char → Bool) (r : List Char) : Prop := ∀ c ∈ r.head?, p c = false

@[simp]
theorem stops_nil (p : Char → Bool) : Stops p [] := by simp [Stops]

@[simp]
theorem stops_cons {p : Char → Bool} {c : Char} {r : List Char} : Stops p (c :: r) ↔ p c = false := by
  simp [Stops]

theorem Stops.mono {p q : Char → Bool} (sub : ∀ c, q c → p c) {r : List Char} (h : Stops p r) : Stops q r := by
  intro c hc
  rw [← Bool.not_eq_true]
  intro hq
  exact absurd (sub c hq) (by simp [h c hc])

/-- A run of characters of one class ends at the first character of another. -/
theorem append_inj_of_stops {p : Char → Bool} {a b r s : List Char} (ha : ∀ c ∈ a, p c) (hb : ∀ c ∈ b, p c)
    (hr : Stops p r) (hs : Stops p s) (h : a ++ r = b ++ s) : a = b ∧ r = s := by
  induction a generalizing b with
  | nil =>
    cases b with
    | nil => exact ⟨rfl, h⟩
    | cons d b =>
      -- what follows the first run would go on with a character of the second
      rw [List.nil_append] at h
      rw [h, List.cons_append, stops_cons, hb d (by simp)] at hr
      cases hr
  | cons c a ih =>
    cases b with
    | nil =>
      rw [List.nil_append] at h
      rw [← h, List.cons_append, stops_cons, ha c (by simp)] at hs
      cases hs
    | cons d b =>
      simp only [List.cons_append, List.cons.injEq] at h
      obtain ⟨rfl, h⟩ := h
      have := ih (fun e he => ha e (by simp [he])) (fun e he => hb e (by simp [he])) h
      exact ⟨by rw [this.1], this.2⟩

/-! ### Parts of a list -/

variable {α : Type} {text : α → List Char} {ok : α → Prop} {follow stop : List Char → Prop}

/-- The text of `a` is no beginning of another text: what reads like it and goes on as it may go on is `a` itself. -/
def ReadsOff (text : α → List Char) (ok : α → Prop) (follow : List Char → Prop) (a : α) : Prop :=
  ∀ ⦃b r s⦄, ok b → follow r → follow s → text a ++ r = text b ++ s → a = b ∧ r = s

/-- How parts stand in a list with single spaces: each may be followed by the next one, and by what ends the list,
and the end does not look like a part. -/
structure Spacing (text : α → List Char) (ok : α → Prop) (follow stop : List Char → Prop) : Prop where
  next : ∀ a r, ok a → follow (' ' :: text a ++ r)
  last : ∀ r, stop r → follow r
  not_next : ∀ a r, ok a → ¬ stop (' ' :: text a ++ r)

/-- The parts of a list in which a space stands before each part. -/
theorem Spacing.flatMap_append_inj (sp : Spacing text ok follow stop) {as bs : List α} {r s : List Char}
    (has : ∀ a ∈ as, ok a ∧ ReadsOff text ok follow a) (hbs : ∀ b ∈ bs, ok b) (hr : stop r) (hs : stop s)
    (h : (as.flatMap fun a => ' ' :: text a) ++ r = (bs.flatMap fun b => ' ' :: text b) ++ s) :
    as = bs ∧ r = s := by
  have follows {cs : List α} {t : List Char} (hcs : ∀ c ∈ cs, ok c) (ht : stop t) :
      follow ((cs.flatMap fun c => ' ' :: text c) ++ t) := by
    cases cs with
    | nil => exact sp.last t ht
    | cons c cs => simpa using sp.next c _ (hcs c (by simp))
  induction as generalizing bs with
  | nil =>
    cases bs with
    | nil => exact ⟨rfl, h⟩
    | cons b bs =>
      -- the first list would end where the second goes on with a part
      refine absurd hr ?_
      rw [show r = ' ' :: text b ++ ((bs.flatMap fun b => ' ' :: text b) ++ s) by simpa using h]
      exact sp.not_next b _ (hbs b (by simp))
  | cons a as ih =>
    cases bs with
    | nil =>
      refine absurd hs ?_
      rw [show s = ' ' :: text a ++ ((as.flatMap fun b => ' ' :: text b) ++ r) by simpa using h.symm]
      exact sp.not_next a _ (has a (by simp)).1
    | cons b bs =>
      rw [List.forall_mem_cons] at has hbs
      simp only [List.flatMap_cons, List.cons_append, List.append_assoc, List.cons.injEq, true_and] at h
      obtain ⟨rfl, tails⟩ := has.1.2 hbs.1 (follows (fun c hc => (has.2 c hc).1) hr) (follows hbs.2 hs) h
      obtain ⟨rfl, rfl⟩ := ih has.2 hbs.2 tails
      exact ⟨rfl, rfl⟩

@[simp]
theorem spaced_nil : spaced [] = [] := rfl

theorem spaced_cons (t : List Char) (ts : List (List Char)) :
    spaced (t :: ts) = t ++ ts.flatMap fun t => ' ' :: t := by
  induction ts generalizing t with
  | nil => simp [spaced]
  | cons u ts ih =>
    have := ih u
    simp only [spaced] at this ⊢
    simp [List.intercalate_cons_cons, this]

theorem spaced_map_cons (text : α → List Char) (a : α) (as : List α) :
    spaced ((a :: as).map text) = text a ++ as.flatMap fun a => ' ' :: text a := by
  rw [List.map_cons, spaced_cons, List.flatMap_map]

/-- The parts of a list in which a space stands between any two parts. -/
theorem Spacing.spaced_append_inj (sp : Spacing text ok follow stop) (not_first : ∀ a r, ok a → ¬ stop (text a ++ r))
    {as bs : List α} {r s : List Char} (has : ∀ a ∈ as, ok a ∧ ReadsOff text ok follow a) (hbs : ∀ b ∈ bs, ok b)
    (hr : stop r) (hs : stop s) (h : spaced (as.map text) ++ r = spaced (bs.map text) ++ s) :
    as = bs ∧ r = s := by
  cases as with
  | nil =>
    cases bs with
    | nil => exact ⟨rfl, by simpa using h⟩
    | cons b bs =>
      refine absurd hr ?_
      rw [spaced_map_cons, List.append_assoc] at h
      rw [show r = text b ++ ((bs.flatMap fun b => ' ' :: text b) ++ s) by simpa using h]
      exact not_first b _ (hbs b (by simp))
  | cons a as =>
    cases bs with
    | nil =>
      refine absurd hs ?_
      rw [spaced_map_cons, List.append_assoc] at h
      rw [show s = text a ++ ((as.flatMap fun b => ' ' :: text b) ++ r) by simpa using h.symm]
      exact not_first a _ (has a (by simp)).1
    | cons b bs =>
      -- with one more space in front both lists have a space before each part
      refine sp.flatMap_append_inj has hbs hr hs ?_
      rw [spaced_map_cons, spaced_map_cons] at h
      simpa using h

/-! ### Parts that may be missing -/

/-- A part behind a space and what introduces it, or nothing where there is no part. -/
def introduced (mark : Char) (opening : List Char) (text : α → List Char) (part : Option α) : List Char :=
  part.elim [] fun a => ' ' :: mark :: opening ++ text a

theorem stops_introduced {p : Char → Bool} (hp : p ' ' = false) (mark : Char) (opening : List Char)
    (text : α → List Char) (part : Option α) {r : List Char} (hr : Stops p r) :
    Stops p (introduced mark opening text part ++ r) := by
  cases part with
  | none => exact hr
  | some a => simpa [introduced] using hp

/-- A part that may be missing is read off unless its introduction could follow as well. -/
theorem introduced_append_inj {mark : Char} {opening : List Char} {a b : Option α} {r s : List Char}
    (ha : ∀ x ∈ a, ReadsOff text ok follow x) (hb : ∀ x ∈ b, ok x) (hr : follow r) (hs : follow s)
    (unmarked : ∀ t, r = ' ' :: t → Stops (· = mark) t) (unmarked' : ∀ t, s = ' ' :: t → Stops (· = mark) t)
    (h : introduced mark opening text a ++ r = introduced mark opening text b ++ s) : a = b ∧ r = s := by
  cases a with
  | none =>
    cases b with
    | none => exact ⟨rfl, h⟩
    | some y =>
      have := unmarked _ h
      simp at this
  | some x =>
    cases b with
    | none =>
      have := unmarked' _ h.symm
      simp at this
    | some y =>
      simp only [introduced, Option.elim_some, List.cons_append, List.append_assoc, List.cons.injEq, true_and] at h
      obtain ⟨rfl, rest⟩ := ha x rfl (hb y rfl) hr hs (List.append_cancel_left h)
      exact ⟨rfl, rest⟩

/-! ### Parts between brackets -/

/-- Parts between an opening and a closing text, or nothing where there are no parts. -/
def enclosed (opening closing : List Char) (ts : List (List Char)) : List Char :=
  if ts.isEmpty then [] else opening ++ spaced ts ++ closing

theorem parenthesized_eq_enclosed (ts : List (List Char)) : parenthesized ts = enclosed ['('] [')'] ts := rfl

theorem braced_eq_enclosed (ts : List (List Char)) : braced ts = enclosed ['\x7b', ' '] [' ', '\x7d'] ts := rfl

theorem stops_enclosed {p : Char → Bool} {first : Char} (hp : p first = false) (opening closing : List Char)
    (ts : List (List Char)) {r : List Char} (hr : Stops p r) :
    Stops p (enclosed (first :: opening) closing ts ++ r) := by
  unfold enclosed
  split
  · exact hr
  · simpa using hp

/-- Parts between brackets are read off unless an opening bracket follows, which could follow nothing as well. -/
theorem Spacing.enclosed_append_inj {first : Char} {opening closing : List Char}
    (sp : Spacing text ok follow (closing <+: ·)) (not_first : ∀ a r, ok a → ¬ closing <+: text a ++ r)
    {as bs : List α} {r s : List Char} (has : ∀ a ∈ as, ok a ∧ ReadsOff text ok follow a) (hbs : ∀ b ∈ bs, ok b)
    (hr : Stops (· = first) r) (hs : Stops (· = first) s)
    (h : enclosed (first :: opening) closing (as.map text) ++ r =
      enclosed (first :: opening) closing (bs.map text) ++ s) : as = bs ∧ r = s := by
  cases as with
  | nil =>
    cases bs with
    | nil => exact ⟨rfl, by simpa [enclosed] using h⟩
    | cons b bs =>
      rw [show r = _ by simpa [enclosed] using h] at hr
      simp at hr
  | cons a as =>
    cases bs with
    | nil =>
      rw [show s = _ by simpa [enclosed] using h.symm] at hs
      simp at hs
    | cons b bs =>
      have inner : spaced ((a :: as).map text) ++ (closing ++ r) = spaced ((b :: bs).map text) ++ (closing ++ s) := by
        simpa [enclosed] using h
      obtain ⟨eq, rest⟩ :=
        sp.spaced_append_inj not_first has hbs (List.prefix_append _ _) (List.prefix_append _ _) inner
      exact ⟨eq, List.append_cancel_left rest⟩

end PersistedQuery
