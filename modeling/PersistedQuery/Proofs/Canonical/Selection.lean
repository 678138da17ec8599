import PersistedQuery.Proofs.Canonical.Value

/-!
# Reading off selections

The text of a well-formed selection tells the selection and where it ends, if what follows is the end of its set or the
next selection (`Selection.readsOff`).  So the text of a set tells the set (`selectionSet_append_inj`).
-/

namespace PersistedQuery

open Text

/-- What may follow a selection: a space, and then the end of its set or another selection. -/
def EndsSelection (r : List Char) : Prop := ∃ c t, r = ' ' :: c :: t ∧ (c = '\x7d' ∨ isWordChar c)

theorem EndsSelection.stops {p : Char → Bool} (hp : p ' ' = false) {r : List Char} (h : EndsSelection r) :
    Stops p r := by
  obtain ⟨c, t, rfl, _⟩ := h
  simpa using hp

/-- Neither directives nor a selection set of its own may follow a finished selection. -/
theorem EndsSelection.not_cons {c : Char} (brace : c ≠ '\x7d') (word : isWordChar c = false) (t : List Char) :
    ¬ EndsSelection (' ' :: c :: t) := by
  rintro ⟨d, u, eq, hd⟩
  cases eq
  rcases hd with hd | hd
  · exact brace hd
  · rw [word] at hd
    cases hd

theorem EndsSelection.endsDirectives {r : List Char} (h : EndsSelection r) : EndsDirectives r := by
  refine ⟨h.stops (by decide), ?_⟩
  rintro t rfl
  cases t with
  | nil => simp
  | cons c t =>
    rw [stops_cons, decide_eq_false_iff_not]
    rintro rfl
    exact EndsSelection.not_cons (by decide) (by decide) t h

/-! ### Names with aliases -/

def responseText (aliasName : Option String) (name : String) : List Char :=
  aliasName.elim name.toList (labelled · name.toList)

theorem responseText_cons {a : Option String} {n : String} (ha : ∀ x ∈ a, Spelling.graphQL.name x)
    (hn : Spelling.graphQL.name n) : ∃ c t, responseText a n = c :: t ∧ isNameStart c := by
  cases a with
  | none =>
    obtain ⟨c, t, eq, first, _⟩ := exists_cons_of_isName hn
    exact ⟨c, t, eq, first⟩
  | some x =>
    obtain ⟨c, t, eq, first, _⟩ := exists_cons_of_isName (ha x rfl)
    exact ⟨c, t ++ ": ".toList ++ n.toList, by simp [responseText, labelled, eq], first⟩

def isWordOrColon (c : Char) : Bool := isWordChar c || c = ':'

private theorem stops_word_of_stops_colon {r : List Char} (h : Stops isWordOrColon r) : Stops isWordChar r :=
  h.mono fun c hc => by simp [isWordOrColon, hc]

theorem response_append_inj {a b : Option String} {m n : String} {r s : List Char}
    (ha : ∀ x ∈ a, Spelling.graphQL.name x) (hb : ∀ x ∈ b, Spelling.graphQL.name x) (hm : Spelling.graphQL.name m)
    (hn : Spelling.graphQL.name n) (hr : Stops isWordOrColon r) (hs : Stops isWordOrColon s)
    (h : responseText a m ++ r = responseText b n ++ s) : a = b ∧ m = n ∧ r = s := by
  have hr' := stops_word_of_stops_colon hr
  have hs' := stops_word_of_stops_colon hs
  -- an alias is a name that a colon follows
  have clash {x m n : String} {t u : List Char} (hx : Spelling.graphQL.name x) (hn : Spelling.graphQL.name n)
      (hu : Stops isWordOrColon u) (h : labelled x m.toList ++ t = n.toList ++ u) : False := by
    simp only [labelled, List.append_assoc] at h
    obtain ⟨_, rest⟩ := name_append_inj hx hn (by simp; decide) (stops_word_of_stops_colon hu) h
    rw [← rest] at hu
    simp [isWordOrColon] at hu
  cases a with
  | none =>
    cases b with
    | none =>
      obtain ⟨eq, rest⟩ := name_append_inj hm hn hr' hs' h
      exact ⟨rfl, eq, rest⟩
    | some y => exact (clash (hb y rfl) hm hr h.symm).elim
  | some x =>
    cases b with
    | none => exact (clash (ha x rfl) hn hs h).elim
    | some y =>
      obtain ⟨rfl, rest⟩ := labelled_append_inj (ha x rfl) (hb y rfl) h
      obtain ⟨eq, rest⟩ := name_append_inj hm hn hr' hs' rest
      exact ⟨rfl, eq, rest⟩

/-! ### The text of a selection -/

def conditionText (typeCondition : Option String) : List Char := introduced 'o' ['n', ' '] String.toList typeCondition

/-- A selection set behind a space, or nothing for an empty one. -/
def subselectionText (set : SelectionSet Numeral) : List Char :=
  if set.isEmpty then [] else ' ' :: SelectionSet.text set

theorem Selection.text_field (f : Field Numeral (Selection Numeral)) :
    (Selection.field f).text = responseText f.aliasName f.name ++
      (argumentsText f.arguments ++ (directivesText f.directives ++ subselectionText f.selectionSet)) := by
  simp [Selection.text, responseText, subselectionText, SelectionSet.text]

theorem Selection.text_spread (s : FragmentSpread Numeral) :
    (Selection.spread s).text = '.' :: '.' :: '.' :: (s.name.toList ++ directivesText s.directives) := by
  simp [Selection.text, FragmentSpread.text]

theorem Selection.text_inlineFragment (f : InlineFragment Numeral (Selection Numeral)) :
    (Selection.inlineFragment f).text = '.' :: '.' :: '.' ::
      (conditionText f.typeCondition ++ (directivesText f.directives ++ ' ' :: SelectionSet.text f.selectionSet)) := by
  simp [Selection.text, conditionText, introduced, SelectionSet.text]

/-! ### Sets -/

theorem selection_cons {s : Selection Numeral} (h : s.Spelled .graphQL) :
    ∃ c t, s.text = c :: t ∧ isWordChar c := by
  cases s with
  | field f =>
    obtain ⟨c, t, eq, first⟩ := responseText_cons h.1.1 h.1.2.1
    exact ⟨c, _, by rw [Selection.text_field, eq]; rfl, isWordChar_of_isNameStart first⟩
  | spread s => exact ⟨'.', _, Selection.text_spread s, by decide⟩
  | inlineFragment f => exact ⟨'.', _, Selection.text_inlineFragment f, by decide⟩

theorem spacing_selections :
    Spacing Selection.text (Selection.Spelled .graphQL) EndsSelection ([' ', '\x7d'] <+: ·) where
  next s r h := by
    obtain ⟨c, t, eq, hc⟩ := selection_cons h
    exact ⟨c, t ++ r, by simp [eq], .inr hc⟩
  last r h := by
    obtain ⟨t, rfl⟩ := h
    exact ⟨'\x7d', t, rfl, .inl rfl⟩
  not_next s r h hr := by
    obtain ⟨c, t, eq, hc⟩ := selection_cons h
    simp only [eq, List.cons_append, List.cons_prefix_cons, true_and] at hr
    rw [← hr.1] at hc
    exact absurd hc (by decide)

theorem not_prefix_selection {s : Selection Numeral} (h : s.Spelled .graphQL) (r : List Char) :
    ¬ [' ', '\x7d'] <+: s.text ++ r := by
  obtain ⟨c, t, eq, hc⟩ := selection_cons h
  intro hr
  simp only [eq, List.cons_append, List.cons_prefix_cons] at hr
  rw [← hr.1] at hc
  exact absurd hc (by decide)

/-- The selections of a set are spelled and can be read off. -/
def SelectionsReadOff (set : SelectionSet Numeral) : Prop :=
  ∀ s ∈ set, s.Spelled .graphQL ∧ ReadsOff Selection.text (Selection.Spelled .graphQL) EndsSelection s

theorem selectionSet_append_inj_of_readsOff {as bs : SelectionSet Numeral} {r s : List Char}
    (has : SelectionsReadOff as)
    (hbs : ∀ b ∈ bs, b.Spelled .graphQL) (hr : Stops (· = '\x7b') r) (hs : Stops (· = '\x7b') s)
    (h : SelectionSet.text as ++ r = SelectionSet.text bs ++ s) : as = bs ∧ r = s := by
  simp only [SelectionSet.text, SelectionSet.texts_eq_map, braced_eq_enclosed] at h
  exact spacing_selections.enclosed_append_inj (fun s r hs => not_prefix_selection hs r) has hbs hr hs h

theorem stops_selectionSet {p : Char → Bool} (hp : p '\x7b' = false) (set : SelectionSet Numeral) {r : List Char}
    (hr : Stops p r) : Stops p (SelectionSet.text set ++ r) := by
  rw [SelectionSet.text, braced_eq_enclosed]
  exact stops_enclosed hp _ _ _ hr

/-! ### Parts of a selection -/

theorem selectionSet_cons (s : Selection Numeral) (set : SelectionSet Numeral) :
    ∃ t, SelectionSet.text (s :: set) = '\x7b' :: t :=
  ⟨_, by simp [SelectionSet.text, SelectionSet.texts, braced]; rfl⟩

theorem subselection_append_inj {as bs : SelectionSet Numeral} {r s : List Char}
    (has : SelectionsReadOff as)
    (hbs : ∀ b ∈ bs, b.Spelled .graphQL) (hr : EndsSelection r) (hs : EndsSelection s)
    (h : subselectionText as ++ r = subselectionText bs ++ s) : as = bs ∧ r = s := by
  -- what follows a finished selection is not taken for its set
  have clash (b : Selection Numeral) (bs : SelectionSet Numeral) (s : List Char) :
      ¬ EndsSelection (subselectionText (b :: bs) ++ s) := by
    obtain ⟨t, eq⟩ := selectionSet_cons b bs
    simpa [subselectionText, eq] using EndsSelection.not_cons (by decide) (by decide) (t ++ s)
  cases as with
  | nil =>
    cases bs with
    | nil => exact ⟨rfl, h⟩
    | cons b bs => exact absurd (h ▸ hr) (clash b bs s)
  | cons a as =>
    cases bs with
    | nil => exact absurd (h ▸ hs) (clash a as r)
    | cons b bs =>
      refine selectionSet_append_inj_of_readsOff has hbs (hr.stops (by decide)) (hs.stops (by decide)) ?_
      simpa [subselectionText] using h

theorem stops_subselection {p : Char → Bool} (hp : p ' ' = false) (set : SelectionSet Numeral) {r : List Char}
    (hr : Stops p r) : Stops p (subselectionText set ++ r) := by
  unfold subselectionText
  split
  · exact hr
  · simpa using hp

theorem endsDirectives_subselection (set : SelectionSet Numeral) {r : List Char} (hr : EndsSelection r) :
    EndsDirectives (subselectionText set ++ r) := by
  cases set with
  | nil => exact hr.endsDirectives
  | cons s set =>
    obtain ⟨t, eq⟩ := selectionSet_cons s set
    refine ⟨stops_subselection (by decide) _ (hr.stops (by decide)), fun u hu => ?_⟩
    simp only [subselectionText, List.isEmpty_cons, Bool.false_eq_true, if_false, eq, List.cons_append,
      List.cons.injEq, true_and] at hu
    rw [← hu, stops_cons]
    decide

/-- Behind directives a set follows a space also where it is empty. -/
theorem endsDirectives_selectionSet (set : SelectionSet Numeral) {r : List Char} (hr : Stops (· = '@') r) :
    EndsDirectives (' ' :: (SelectionSet.text set ++ r)) := by
  refine ⟨stops_cons.2 (by decide), fun t ht => ?_⟩
  rw [← (List.cons.inj ht).2]
  exact stops_selectionSet (by decide) set hr

theorem annotations_append_inj {as bs : List (Argument Numeral)} {ds es : List (Directive Numeral)} {r s : List Char}
    (has : ∀ a ∈ as, a.Spelled .graphQL) (hbs : ∀ b ∈ bs, b.Spelled .graphQL) (hds : ∀ d ∈ ds, d.Spelled .graphQL)
    (hes : ∀ e ∈ es, e.Spelled .graphQL) (hr : EndsDirectives r) (hs : EndsDirectives s)
    (h : argumentsText as ++ (directivesText ds ++ r) = argumentsText bs ++ (directivesText es ++ s)) :
    as = bs ∧ ds = es ∧ r = s := by
  obtain ⟨arguments, rest⟩ := arguments_append_inj has hbs
    (stops_directives (by decide) ds (stops_opening_of_stops hr.1))
    (stops_directives (by decide) es (stops_opening_of_stops hs.1)) h
  exact ⟨arguments, directives_append_inj hds hes hr hs rest⟩

/-- Between the dots of an inline fragment and its set stand a condition and directives, each behind a space. -/
theorem stops_condition {p : Char → Bool} (hp : p ' ' = false) (typeCondition : Option String)
    (directives : List (Directive Numeral)) (r : List Char) :
    Stops p (conditionText typeCondition ++ (directivesText directives ++ ' ' :: r)) :=
  stops_introduced hp _ _ _ _ (stops_directives hp directives (stops_cons.2 hp))

private theorem directives_not_condition (directives : List (Directive Numeral)) {r : List Char}
    (hr : Stops (· = 'o') r) : ∀ t, directivesText directives ++ ' ' :: r = ' ' :: t → Stops (· = 'o') t := by
  intro t ht
  cases directives with
  | nil =>
    rw [← (List.cons.inj ht).2]
    exact hr
  | cons d ds =>
    simp only [directivesText, List.flatMap_cons, Directive.text, List.cons_append, List.cons.injEq, true_and] at ht
    rw [← ht, stops_cons]
    decide

/-! ### Selections -/

private theorem Selection.text_field_ne {f : Field Numeral (Selection Numeral)}
    (hf : (Selection.field f).Spelled .graphQL) (r t : List Char) : (Selection.field f).text ++ r ≠ '.' :: t := by
  obtain ⟨c, u, eq, first⟩ := responseText_cons hf.1.1 hf.1.2.1
  rw [Selection.text_field, eq]
  intro h
  rw [(List.cons.inj h).1] at first
  exact absurd first (by decide)

/-- A spread has its name right behind the dots, where an inline fragment has a space. -/
private theorem Selection.text_spread_ne {s : FragmentSpread Numeral} (hs : s.Spelled .graphQL)
    (f : InlineFragment Numeral (Selection Numeral)) (r t : List Char) :
    (Selection.spread s).text ++ r ≠ (Selection.inlineFragment f).text ++ t := by
  obtain ⟨c, u, eq, first, _⟩ := exists_cons_of_isName hs.1
  rw [Selection.text_spread, Selection.text_inlineFragment, eq]
  intro h
  simp only [List.cons_append, List.append_assoc, List.cons.injEq, true_and] at h
  have stops := stops_condition (p := isWordChar) (by decide) f.typeCondition f.directives
    (SelectionSet.text f.selectionSet ++ t)
  rw [← h, stops_cons, isWordChar_of_isNameStart first] at stops
  cases stops

private theorem FragmentSpread.append_inj {a b : FragmentSpread Numeral} {r s : List Char} (ha : a.Spelled .graphQL)
    (hb : b.Spelled .graphQL) (hr : EndsSelection r) (hs : EndsSelection s)
    (h : (Selection.spread a).text ++ r = (Selection.spread b).text ++ s) : a = b ∧ r = s := by
  simp only [Selection.text_spread, List.cons_append, List.append_assoc, List.cons.injEq, true_and] at h
  obtain ⟨name, rest⟩ := name_append_inj ha.1 hb.1 (stops_directives (by decide) _ (hr.stops (by decide)))
    (stops_directives (by decide) _ (hs.stops (by decide))) h
  obtain ⟨directives, rest⟩ := directives_append_inj ha.2 hb.2 hr.endsDirectives hs.endsDirectives rest
  refine ⟨?_, rest⟩
  obtain ⟨_, _⟩ := a
  obtain ⟨_, _⟩ := b
  rw [FragmentSpread.mk.injEq]
  exact ⟨name, directives⟩

private theorem Field.append_inj {f g : Field Numeral (Selection Numeral)} {r s : List Char}
    (hf : (Selection.field f).Spelled .graphQL) (hg : (Selection.field g).Spelled .graphQL)
    (sets : SelectionsReadOff f.selectionSet) (hr : EndsSelection r) (hs : EndsSelection s)
    (h : (Selection.field f).text ++ r = (Selection.field g).text ++ s) : f = g ∧ r = s := by
  obtain ⟨⟨fa, fn, fas, fds⟩, _⟩ := hf
  obtain ⟨⟨ga, gn, gas, gds⟩, gs⟩ := hg
  have stops (x : Field Numeral (Selection Numeral)) {t : List Char} (ht : EndsSelection t) :
      Stops isWordOrColon
        (argumentsText x.arguments ++ (directivesText x.directives ++ (subselectionText x.selectionSet ++ t))) :=
    stops_arguments (by decide) _ (stops_directives (by decide) _
      (stops_subselection (by decide) _ (ht.stops (by decide))))
  simp only [Selection.text_field, List.append_assoc] at h
  obtain ⟨aliasName, name, rest⟩ := response_append_inj fa ga fn gn (stops f hr) (stops g hs) h
  obtain ⟨arguments, directives, rest⟩ := annotations_append_inj fas gas fds gds
    (endsDirectives_subselection _ hr) (endsDirectives_subselection _ hs) rest
  obtain ⟨set, rest⟩ := subselection_append_inj sets ((SelectionSet.spelled_iff _ _).1 gs) hr hs rest
  refine ⟨?_, rest⟩
  obtain ⟨_, _, _, _, _⟩ := f
  obtain ⟨_, _, _, _, _⟩ := g
  rw [Field.mk.injEq]
  exact ⟨aliasName, name, arguments, directives, set⟩

private theorem InlineFragment.append_inj {f g : InlineFragment Numeral (Selection Numeral)} {r s : List Char}
    (hf : (Selection.inlineFragment f).Spelled .graphQL) (hg : (Selection.inlineFragment g).Spelled .graphQL)
    (sets : SelectionsReadOff f.selectionSet) (hr : EndsSelection r) (hs : EndsSelection s)
    (h : (Selection.inlineFragment f).text ++ r = (Selection.inlineFragment g).text ++ s) : f = g ∧ r = s := by
  obtain ⟨⟨fc, fds⟩, _⟩ := hf
  obtain ⟨⟨gc, gds⟩, gs⟩ := hg
  simp only [Selection.text_inlineFragment, List.cons_append, List.append_assoc, List.cons.injEq, true_and] at h
  have stops (x : InlineFragment Numeral (Selection Numeral)) (t : List Char) :
      Stops isWordChar (directivesText x.directives ++ ' ' :: (SelectionSet.text x.selectionSet ++ t)) :=
    stops_directives (by decide) _ (stops_cons.2 (by decide))
  have condition (x : InlineFragment Numeral (Selection Numeral)) {t : List Char} (ht : EndsSelection t) :=
    directives_not_condition x.directives
      (stops_selectionSet (p := (· = 'o')) (by decide) x.selectionSet (ht.stops (by decide)))
  obtain ⟨typeCondition, rest⟩ := introduced_append_inj (fun t ht => name_readsOff (fc t ht)) gc (stops f r) (stops g s)
    (condition f hr) (condition g hs) h
  obtain ⟨directives, rest⟩ := directives_append_inj fds gds
    (endsDirectives_selectionSet _ (hr.stops (by decide))) (endsDirectives_selectionSet _ (hs.stops (by decide))) rest
  obtain ⟨set, rest⟩ := selectionSet_append_inj_of_readsOff sets ((SelectionSet.spelled_iff _ _).1 gs)
    (hr.stops (by decide)) (hs.stops (by decide)) (List.cons.inj rest).2
  refine ⟨?_, rest⟩
  obtain ⟨_, _, _⟩ := f
  obtain ⟨_, _, _⟩ := g
  rw [InlineFragment.mk.injEq]
  exact ⟨typeCondition, directives, set⟩

/-- The text of a selection tells the selection and where it ends. -/
theorem Selection.readsOff {s : Selection Numeral} (hs : s.Spelled .graphQL) :
    ReadsOff Selection.text (Selection.Spelled .graphQL) EndsSelection s := by
  induction s using Selection.induction with
  | field f ih =>
    intro t r u ht hr hu h
    cases t with
    | field g =>
      have spelled := (SelectionSet.spelled_iff _ _).1 hs.2
      obtain ⟨rfl, rest⟩ :=
        Field.append_inj hs ht (fun s mem => ⟨spelled s mem, ih s mem (spelled s mem)⟩) hr hu h
      exact ⟨rfl, rest⟩
    | spread g => exact absurd (h.trans (by rw [Selection.text_spread]; rfl)) (Selection.text_field_ne hs r _)
    | inlineFragment g =>
      exact absurd (h.trans (by rw [Selection.text_inlineFragment]; rfl)) (Selection.text_field_ne hs r _)
  | spread a =>
    intro t r u ht hr hu h
    cases t with
    | field g => exact absurd (h.symm.trans (by rw [Selection.text_spread]; rfl)) (Selection.text_field_ne ht u _)
    | spread b =>
      obtain ⟨rfl, rest⟩ := FragmentSpread.append_inj hs ht hr hu h
      exact ⟨rfl, rest⟩
    | inlineFragment g => exact absurd h (Selection.text_spread_ne hs g r u)
  | inlineFragment f ih =>
    intro t r u ht hr hu h
    cases t with
    | field g =>
      exact absurd (h.symm.trans (by rw [Selection.text_inlineFragment]; rfl)) (Selection.text_field_ne ht u _)
    | spread b => exact absurd h.symm (Selection.text_spread_ne ht f u r)
    | inlineFragment g =>
      have spelled := (SelectionSet.spelled_iff _ _).1 hs.2
      obtain ⟨rfl, rest⟩ :=
        InlineFragment.append_inj hs ht (fun s mem => ⟨spelled s mem, ih s mem (spelled s mem)⟩) hr hu h
      exact ⟨rfl, rest⟩

/-- The text of a set tells the set and where it ends. -/
theorem selectionSet_append_inj {as bs : SelectionSet Numeral} {r s : List Char}
    (has : SelectionSet.Spelled .graphQL as) (hbs : SelectionSet.Spelled .graphQL bs) (hr : Stops (· = '\x7b') r)
    (hs : Stops (· = '\x7b') s) (h : SelectionSet.text as ++ r = SelectionSet.text bs ++ s) : as = bs ∧ r = s := by
  rw [SelectionSet.spelled_iff] at has hbs
  exact selectionSet_append_inj_of_readsOff (fun a mem => ⟨has a mem, Selection.readsOff (has a mem)⟩) hbs hr hs h

end PersistedQuery
