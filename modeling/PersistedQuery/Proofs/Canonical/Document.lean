import PersistedQuery.Proofs.Canonical.Selection

/-!
# Canonical text identifies the document

The text of a well-formed definition that selects something tells the definition and where it ends
(`Definition.readsOff`): a keyword, or the brace of a shorthand query, tells what kind of definition it is, and then the
parts follow in an order that leaves no choice.  So two well-formed documents have the same text only if they have the
same definitions, up to those that select nothing.
-/

namespace PersistedQuery

open Text

/-! ### Types -/

/-- The type wrapped as one that is not null, a number of times. -/
def TypeRef.nonNulls : Nat → TypeRef → TypeRef
  | 0, t => t
  | n + 1, t => TypeRef.nonNulls n (.nonNull t)

def isWordOrBang (c : Char) : Bool := isWordChar c || c = '!'

private theorem bangs_append_inj {m n : Nat} {r s : List Char} (hr : Stops isWordOrBang r) (hs : Stops isWordOrBang s)
    (h : List.replicate m '!' ++ r = List.replicate n '!' ++ s) : m = n ∧ r = s := by
  have bang {k : Nat} : ∀ c ∈ List.replicate k '!', isWordOrBang c := by
    intro c hc
    rw [List.eq_of_mem_replicate hc]
    decide
  obtain ⟨eq, rest⟩ := append_inj_of_stops bang bang hr hs h
  exact ⟨by simpa using congrArg List.length eq, rest⟩

private theorem stops_bangs {n : Nat} {r : List Char} (hr : Stops isWordOrBang r) :
    Stops isWordChar (List.replicate n '!' ++ r) := by
  cases n with
  | zero => exact hr.mono fun c hc => by simp [isWordOrBang, hc]
  | succ n =>
    rw [List.replicate_succ, List.cons_append, stops_cons]
    decide

/-- A list type begins with a bracket and a named type with a letter. -/
private theorem TypeRef.text_named_ne {a : String} (ha : Spelling.graphQL.name a) (r t : List Char) :
    (TypeRef.named a).text ++ r ≠ '[' :: t := by
  obtain ⟨c, u, eq, first, _⟩ := exists_cons_of_isName ha
  rw [TypeRef.text, eq]
  intro h
  rw [(List.cons.inj h).1] at first
  exact absurd first (by decide)

/-- The marks behind a type belong to it: they are counted on both sides while the types are unwrapped. -/
private theorem TypeRef.nonNulls_append_inj (t u : TypeRef) {m n : Nat} {r s : List Char} (ht : t.Spelled .graphQL)
    (hu : u.Spelled .graphQL) (hr : Stops isWordOrBang r) (hs : Stops isWordOrBang s)
    (h : t.text ++ (List.replicate m '!' ++ r) = u.text ++ (List.replicate n '!' ++ s)) :
    TypeRef.nonNulls m t = TypeRef.nonNulls n u ∧ r = s := by
  match t, u with
  -- a mark of the type joins those behind it
  | .nonNull t, u =>
    have : t.text ++ (List.replicate (m + 1) '!' ++ r) = u.text ++ (List.replicate n '!' ++ s) := by
      simpa [TypeRef.text, List.replicate_succ] using h
    exact TypeRef.nonNulls_append_inj t u ht hu hr hs this
  | t, .nonNull u =>
    have : t.text ++ (List.replicate m '!' ++ r) = u.text ++ (List.replicate (n + 1) '!' ++ s) := by
      simpa [TypeRef.text, List.replicate_succ] using h
    exact TypeRef.nonNulls_append_inj t u ht hu hr hs this
  | .named a, .named b =>
    obtain ⟨rfl, marks⟩ := name_append_inj ht hu (stops_bangs hr) (stops_bangs hs) h
    obtain ⟨rfl, rest⟩ := bangs_append_inj hr hs marks
    exact ⟨rfl, rest⟩
  | .list t, .list u =>
    simp only [TypeRef.text, List.cons_append, List.append_assoc, List.cons.injEq, true_and, List.nil_append] at h
    have bracket {r : List Char} : Stops isWordOrBang (']' :: r) := by
      rw [stops_cons]
      decide
    obtain ⟨eq, closed⟩ := TypeRef.nonNulls_append_inj t u (m := 0) (n := 0) ht hu bracket bracket h
    obtain ⟨rfl, rest⟩ := bangs_append_inj hr hs (List.cons.inj closed).2
    exact ⟨congrArg (fun t => TypeRef.nonNulls m (.list t)) eq, rest⟩
  | .named a, .list u => exact absurd h (TypeRef.text_named_ne ht _ _)
  | .list t, .named b => exact absurd h.symm (TypeRef.text_named_ne hu _ _)

theorem TypeRef.append_inj {t u : TypeRef} {r s : List Char} (ht : t.Spelled .graphQL) (hu : u.Spelled .graphQL)
    (hr : Stops isWordOrBang r) (hs : Stops isWordOrBang s) (h : t.text ++ r = u.text ++ s) : t = u ∧ r = s :=
  TypeRef.nonNulls_append_inj (m := 0) (n := 0) t u ht hu hr hs h

/-! ### Variables -/

/-- What may follow a variable: the end of the list, or the next variable. -/
def EndsVariable (r : List Char) : Prop := (∃ t, r = ')' :: t) ∨ ∃ t, r = ' ' :: '$' :: t

private theorem EndsVariable.stops {p : Char → Bool} (close : p ')' = false) (space : p ' ' = false) {r : List Char}
    (h : EndsVariable r) : Stops p r := by
  obtain ⟨t, rfl⟩ | ⟨t, rfl⟩ := h
  · simpa using close
  · simpa using space

private theorem EndsVariable.endsDirectives {r : List Char} (h : EndsVariable r) : EndsDirectives r := by
  refine ⟨h.stops (by decide) (by decide), ?_⟩
  rintro u rfl
  obtain ⟨t, eq⟩ | ⟨t, eq⟩ := h
  · cases eq
  · cases eq
    simp

def defaultText (defaultValue : Option (Value Numeral)) : List Char := introduced '=' [' '] Value.text defaultValue

private theorem VariableDefinition.text_eq (v : VariableDefinition Numeral) :
    v.text = '$' :: labelled v.name (v.type.text ++ (defaultText v.defaultValue ++ directivesText v.directives)) := by
  simp [VariableDefinition.text, variableText, labelled, defaultText, introduced]

private theorem directives_not_default (directives : List (Directive Numeral)) {r : List Char} (hr : EndsVariable r) :
    ∀ t, directivesText directives ++ r = ' ' :: t → Stops (· = '=') t := by
  intro t ht
  cases directives with
  | nil =>
    obtain ⟨u, rfl⟩ | ⟨u, rfl⟩ := hr
    · cases ht
    · rw [← (List.cons.inj ht).2, stops_cons]
      decide
  | cons d ds =>
    simp only [directivesText, List.flatMap_cons, Directive.text, List.cons_append, List.cons.injEq, true_and] at ht
    rw [← ht, stops_cons]
    decide

private theorem VariableDefinition.readsOff {v : VariableDefinition Numeral} (hv : v.Spelled .graphQL) :
    ReadsOff VariableDefinition.text (VariableDefinition.Spelled .graphQL) EndsVariable v := by
  intro w r s hw hr hs h
  obtain ⟨vn, vt, vd, vds⟩ := hv
  obtain ⟨wn, wt, wd, wds⟩ := hw
  have stops {p : Char → Bool} (close : p ')' = false) (space : p ' ' = false) (x : VariableDefinition Numeral)
      {t : List Char} (ht : EndsVariable t) : Stops p (directivesText x.directives ++ t) :=
    stops_directives space _ (ht.stops close space)
  have ends (x : VariableDefinition Numeral) {t : List Char} (ht : EndsVariable t) :
      Stops isWordOrBang (defaultText x.defaultValue ++ (directivesText x.directives ++ t)) :=
    stops_introduced (by decide) _ _ _ _ (stops (by decide) (by decide) x ht)
  simp only [VariableDefinition.text_eq, List.cons_append, List.cons.injEq, true_and] at h
  obtain ⟨name, rest⟩ := labelled_append_inj vn wn h
  simp only [List.append_assoc] at rest
  obtain ⟨type, rest⟩ := TypeRef.append_inj vt wt (ends v hr) (ends w hs) rest
  obtain ⟨defaultValue, rest⟩ := introduced_append_inj (fun x hx => Value.readsOff (vd x hx)) wd
    (stops (by decide) (by decide) v hr) (stops (by decide) (by decide) w hs)
    (directives_not_default _ hr) (directives_not_default _ hs) rest
  obtain ⟨directives, rest⟩ := directives_append_inj vds wds hr.endsDirectives hs.endsDirectives rest
  refine ⟨?_, rest⟩
  obtain ⟨_, _, _, _⟩ := v
  obtain ⟨_, _, _, _⟩ := w
  rw [VariableDefinition.mk.injEq]
  exact ⟨name, type, defaultValue, directives⟩

theorem variableDefinitions_append_inj {vs ws : List (VariableDefinition Numeral)} {r s : List Char}
    (hvs : ∀ v ∈ vs, v.Spelled .graphQL) (hws : ∀ w ∈ ws, w.Spelled .graphQL) (hr : Stops (· = '(') r)
    (hs : Stops (· = '(') s) (h : variableDefinitionsText vs ++ r = variableDefinitionsText ws ++ s) :
    vs = ws ∧ r = s := by
  have sp : Spacing VariableDefinition.text (VariableDefinition.Spelled .graphQL) EndsVariable ([')'] <+: ·) := by
    refine ⟨fun v r _ => .inr ⟨_, by rw [VariableDefinition.text_eq]; rfl⟩, fun r hr => .inl ?_, fun v r _ hr => ?_⟩
    · obtain ⟨t, rfl⟩ := hr
      exact ⟨t, rfl⟩
    · exact absurd (List.cons_prefix_cons.1 hr).1 (by decide)
  have not_first (v : VariableDefinition Numeral) (r : List Char) (_ : v.Spelled .graphQL) :
      ¬ [')'] <+: v.text ++ r := by
    rw [VariableDefinition.text_eq]
    intro hr
    exact absurd (List.cons_prefix_cons.1 hr).1 (by decide)
  simp only [variableDefinitionsText, parenthesized_eq_enclosed] at h
  exact sp.enclosed_append_inj not_first (fun v hv => ⟨hvs v hv, VariableDefinition.readsOff (hvs v hv)⟩) hws hr hs h

/-! ### Headings of operations -/

/-- The name and the variables of an operation, behind a space unless both are missing. -/
def headingText (name : Option String) (definitions : List (VariableDefinition Numeral)) : List Char :=
  (match name with
    | some name => ' ' :: name.toList
    | none => if definitions.isEmpty then [] else [' ']) ++
  variableDefinitionsText definitions

/-- What stands behind the heading, without the space that is there also where the heading is missing. -/
private def behindHeading (name : Option String) (definitions : List (VariableDefinition Numeral))
    (r : List Char) : List Char :=
  if name.isNone && definitions.isEmpty then r else ' ' :: r

private theorem headingText_append (name : Option String) (definitions : List (VariableDefinition Numeral))
    (r : List Char) :
    headingText name definitions ++ ' ' :: r =
      ' ' :: (name.elim [] String.toList ++
        (variableDefinitionsText definitions ++ behindHeading name definitions r)) := by
  cases name with
  | some name => simp [headingText, behindHeading]
  | none =>
    cases definitions with
    | nil => simp [headingText, behindHeading, variableDefinitionsText, parenthesized]
    | cons v vs => simp [headingText, behindHeading]

private theorem stops_behindHeading {name : Option String} {definitions : List (VariableDefinition Numeral)}
    {r : List Char} (hr : Stops isWordOrOpening r) : Stops isWordOrOpening (behindHeading name definitions r) := by
  unfold behindHeading
  split
  · exact hr
  · rw [stops_cons]
    decide

private theorem optionalName_append_inj {a b : Option String} {r s : List Char} (ha : ∀ x ∈ a, Spelling.graphQL.name x)
    (hb : ∀ x ∈ b, Spelling.graphQL.name x) (hr : Stops isWordChar r) (hs : Stops isWordChar s)
    (h : a.elim [] String.toList ++ r = b.elim [] String.toList ++ s) : a = b ∧ r = s := by
  -- a name has a first character, which carries on a word
  have clash {x : String} (hx : Spelling.graphQL.name x) (t : List Char) : ¬ Stops isWordChar (x.toList ++ t) := by
    obtain ⟨c, u, eq, first, _⟩ := exists_cons_of_isName hx
    rw [eq, List.cons_append, stops_cons, isWordChar_of_isNameStart first]
    decide
  cases a with
  | none =>
    cases b with
    | none => exact ⟨rfl, h⟩
    | some y =>
      rw [show r = y.toList ++ s from h] at hr
      exact absurd hr (clash (hb y rfl) s)
  | some x =>
    cases b with
    | none =>
      rw [show s = x.toList ++ r from h.symm] at hs
      exact absurd hs (clash (ha x rfl) r)
    | some y =>
      obtain ⟨rfl, rest⟩ := name_append_inj (ha x rfl) (hb y rfl) hr hs h
      exact ⟨rfl, rest⟩

theorem heading_append_inj {a b : Option String} {vs ws : List (VariableDefinition Numeral)} {r s : List Char}
    (ha : ∀ x ∈ a, Spelling.graphQL.name x) (hb : ∀ x ∈ b, Spelling.graphQL.name x)
    (hvs : ∀ v ∈ vs, v.Spelled .graphQL) (hws : ∀ w ∈ ws, w.Spelled .graphQL) (hr : Stops isWordOrOpening r)
    (hs : Stops isWordOrOpening s) (h : headingText a vs ++ ' ' :: r = headingText b ws ++ ' ' :: s) :
    a = b ∧ vs = ws ∧ r = s := by
  have stops (x : Option String) (us : List (VariableDefinition Numeral)) {t : List Char}
      (ht : Stops isWordOrOpening t) : Stops isWordChar (variableDefinitionsText us ++ behindHeading x us t) := by
    rw [variableDefinitionsText, parenthesized_eq_enclosed]
    exact stops_enclosed (by decide) _ _ _ (stops_word_of_stops (stops_behindHeading ht))
  rw [headingText_append, headingText_append, List.cons.injEq] at h
  obtain ⟨rfl, rest⟩ := optionalName_append_inj ha hb (stops a vs hr) (stops b ws hs) h.2
  obtain ⟨rfl, rest⟩ := variableDefinitions_append_inj hvs hws (stops_opening_of_stops (stops_behindHeading hr))
    (stops_opening_of_stops (stops_behindHeading hs)) rest
  -- the space behind the heading is there on both sides or on neither
  refine ⟨rfl, rfl, ?_⟩
  unfold behindHeading at rest
  split at rest
  · exact rest
  · exact (List.cons.inj rest).2

/-! ### Definitions -/

/-- The word that an operation begins with; a shorthand query has none. -/
def Operation.keyword (o : Operation Numeral) : List Char := if o.isShorthand then [] else o.kind.text

/-- What comes after the keyword of an operation. -/
def Operation.tail (o : Operation Numeral) : List Char :=
  if o.isShorthand then
    SelectionSet.text o.selectionSet
  else
    headingText o.name o.variableDefinitions ++ (directivesText o.directives ++ ' ' :: SelectionSet.text o.selectionSet)

def fragmentKeyword : List Char := "fragment".toList

def Fragment.tail (f : Fragment Numeral) : List Char :=
  ' ' :: (f.name.toList ++ (conditionText (some f.typeCondition) ++
    (directivesText f.directives ++ ' ' :: SelectionSet.text f.selectionSet)))

theorem Operation.text_eq (o : Operation Numeral) : o.text = o.keyword ++ o.tail := by
  unfold Operation.text Operation.keyword Operation.tail headingText
  split
  · rfl
  · cases o.name with
    | none => simp
    | some name => simp

theorem Fragment.text_eq (f : Fragment Numeral) : f.text = fragmentKeyword ++ f.tail := by
  unfold Fragment.text fragmentKeyword Fragment.tail
  simp [conditionText, introduced]

/-- Between a heading and the set behind it stands a space, whether or not there are directives. -/
private theorem directives_set_cons (directives : List (Directive Numeral)) (set : SelectionSet Numeral) (r : List Char)
    (hset : set ≠ []) : ∃ t, directivesText directives ++ ' ' :: (SelectionSet.text set ++ r) = ' ' :: t ∧
      Stops isWordOrOpening t := by
  cases directives with
  | nil =>
    obtain ⟨s, set, rfl⟩ := List.exists_cons_of_ne_nil hset
    obtain ⟨t, eq⟩ := selectionSet_cons s set
    exact ⟨_, rfl, by rw [eq, List.cons_append, stops_cons]; decide⟩
  | cons d ds =>
    refine ⟨d.text ++ (directivesText ds ++ ' ' :: (SelectionSet.text set ++ r)), ?_, ?_⟩
    · simp [directivesText]
    · rw [Directive.text, List.cons_append, List.cons_append, stops_cons]
      decide

private theorem Operation.tail_cons (o : Operation Numeral) (hset : o.selectionSet ≠ []) :
    ∃ c t, o.tail = c :: t ∧ isWordChar c = false := by
  unfold Operation.tail
  split
  · obtain ⟨s, set, eq⟩ := List.exists_cons_of_ne_nil hset
    obtain ⟨t, eqt⟩ := selectionSet_cons s set
    exact ⟨'\x7b', t, by rw [eq, eqt], by decide⟩
  · obtain ⟨t, eq, _⟩ := directives_set_cons o.directives o.selectionSet [] hset
    rw [List.append_nil] at eq
    exact ⟨' ', _, by rw [eq, headingText_append], by decide⟩

private theorem Stops.eq_of_ne {c d : Char} (ne : c ≠ d) {r : List Char} (h : Stops (· ≠ d) r) : Stops (· = c) r :=
  h.mono fun e he => by rw [of_decide_eq_true he]; simpa using ne

private theorem directives_set_append_inj {ds es : List (Directive Numeral)} {as bs : SelectionSet Numeral}
    {r s : List Char} (hds : ∀ d ∈ ds, d.Spelled .graphQL) (hes : ∀ e ∈ es, e.Spelled .graphQL)
    (has : SelectionSet.Spelled .graphQL as) (hbs : SelectionSet.Spelled .graphQL bs) (hr : Stops (· ≠ ' ') r)
    (hs : Stops (· ≠ ' ') s)
    (h : directivesText ds ++ ' ' :: (SelectionSet.text as ++ r) =
      directivesText es ++ ' ' :: (SelectionSet.text bs ++ s)) : ds = es ∧ as = bs ∧ r = s := by
  obtain ⟨directives, rest⟩ := directives_append_inj hds hes (endsDirectives_selectionSet as (hr.eq_of_ne (by decide)))
    (endsDirectives_selectionSet bs (hs.eq_of_ne (by decide))) h
  exact ⟨directives, selectionSet_append_inj has hbs (hr.eq_of_ne (by decide)) (hs.eq_of_ne (by decide))
    (List.cons.inj rest).2⟩

/-- A shorthand query is nothing but its selection set. -/
theorem Operation.eq_shorthand {o : Operation Numeral} (h : o.isShorthand) : o = .shorthand o.selectionSet := by
  obtain ⟨kind, name, definitions, directives, set⟩ := o
  simp only [Operation.isShorthand, Bool.and_eq_true, decide_eq_true_eq, Option.isNone_iff_eq_none,
    List.isEmpty_iff] at h
  obtain ⟨⟨⟨rfl, rfl⟩, rfl⟩, rfl⟩ := h
  rfl

private theorem Operation.shorthand_and_kind {o p : Operation Numeral} (h : o.keyword = p.keyword) :
    o.isShorthand = p.isShorthand ∧ o.kind = p.kind := by
  have word_ne (k : OperationKind) : k.text ≠ [] := by cases k <;> decide
  have word_inj {k l : OperationKind} (h : k.text = l.text) : k = l := by
    revert h
    cases k <;> cases l <;> decide
  unfold Operation.keyword at h
  by_cases ho : o.isShorthand
  · rw [if_pos ho] at h
    by_cases hp : p.isShorthand
    · exact ⟨ho.trans hp.symm, by rw [Operation.eq_shorthand ho, Operation.eq_shorthand hp]; rfl⟩
    · rw [if_neg hp] at h
      exact absurd h.symm (word_ne _)
  · rw [if_neg ho] at h
    by_cases hp : p.isShorthand
    · rw [if_pos hp] at h
      exact absurd h (word_ne _)
    · rw [if_neg hp] at h
      rw [Bool.not_eq_true] at ho hp
      exact ⟨ho.trans hp.symm, word_inj h⟩

private theorem Operation.tail_append_inj {o p : Operation Numeral} {r s : List Char} (ho : o.Spelled .graphQL)
    (hp : p.Spelled .graphQL) (oset : o.selectionSet ≠ []) (pset : p.selectionSet ≠ [])
    (short : o.isShorthand = p.isShorthand) (kind : o.kind = p.kind) (hr : Stops (· ≠ ' ') r)
    (hs : Stops (· ≠ ' ') s) (h : o.tail ++ r = p.tail ++ s) : o = p ∧ r = s := by
  obtain ⟨on, ov, od, os⟩ := ho
  obtain ⟨pn, pv, pd, ps⟩ := hp
  unfold Operation.tail at h
  by_cases ho : o.isShorthand
  · have hp : p.isShorthand := short ▸ ho
    rw [if_pos ho, if_pos hp] at h
    obtain ⟨eq, rest⟩ := selectionSet_append_inj os ps (hr.eq_of_ne (by decide)) (hs.eq_of_ne (by decide)) h
    refine ⟨?_, rest⟩
    rw [Operation.eq_shorthand ho, Operation.eq_shorthand hp, eq]
  · rw [if_neg ho, if_neg (short ▸ ho)] at h
    simp only [List.append_assoc, List.cons_append] at h
    obtain ⟨t, et, ht⟩ := directives_set_cons o.directives o.selectionSet r oset
    obtain ⟨u, eu, hu⟩ := directives_set_cons p.directives p.selectionSet s pset
    rw [et, eu] at h
    obtain ⟨name, definitions, rfl⟩ := heading_append_inj on pn ov pv ht hu h
    obtain ⟨directives, set, rest⟩ := directives_set_append_inj od pd os ps hr hs (et.trans eu.symm)
    refine ⟨?_, rest⟩
    obtain ⟨_, _, _, _, _⟩ := o
    obtain ⟨_, _, _, _, _⟩ := p
    rw [Operation.mk.injEq]
    exact ⟨kind, name, definitions, directives, set⟩

private theorem Fragment.tail_append_inj {f g : Fragment Numeral} {r s : List Char} (hf : f.Spelled .graphQL)
    (hg : g.Spelled .graphQL) (hr : Stops (· ≠ ' ') r) (hs : Stops (· ≠ ' ') s) (h : f.tail ++ r = g.tail ++ s) :
    f = g ∧ r = s := by
  obtain ⟨fn, ft, fd, fs⟩ := hf
  obtain ⟨gn, gt, gd, gs⟩ := hg
  have stops (x : Fragment Numeral) (t : List Char) :
      Stops isWordChar (directivesText x.directives ++ ' ' :: (SelectionSet.text x.selectionSet ++ t)) :=
    stops_directives (by decide) _ (stops_cons.2 (by decide))
  simp only [Fragment.tail, conditionText, introduced, Option.elim_some, List.cons_append, List.append_assoc,
    List.cons.injEq, true_and, List.nil_append] at h
  obtain ⟨name, rest⟩ := name_append_inj fn gn (stops_cons.2 (by decide)) (stops_cons.2 (by decide)) h
  simp only [List.cons.injEq, true_and] at rest
  obtain ⟨typeCondition, rest⟩ := name_append_inj ft gt (stops f r) (stops g s) rest
  obtain ⟨directives, set, rest⟩ := directives_set_append_inj fd gd fs gs hr hs rest
  refine ⟨?_, rest⟩
  obtain ⟨_, _, _, _⟩ := f
  obtain ⟨_, _, _, _⟩ := g
  rw [Fragment.mk.injEq]
  exact ⟨name, typeCondition, directives, set⟩

/-- The definitions that leave a trace in the text of a document. -/
private def Definition.Written (x : Definition Numeral) : Prop := x.Spelled .graphQL ∧ x.selectionSet ≠ []

private theorem keyword_append_inj {k l : List Char} {t u r s : List Char} (hk : ∀ c ∈ k, isWordChar c)
    (hl : ∀ c ∈ l, isWordChar c) (ht : ∃ c v, t = c :: v ∧ isWordChar c = false)
    (hu : ∃ c v, u = c :: v ∧ isWordChar c = false) (h : (k ++ t) ++ r = (l ++ u) ++ s) : k = l ∧ t ++ r = u ++ s := by
  obtain ⟨c, v, rfl, hc⟩ := ht
  obtain ⟨d, w, rfl, hd⟩ := hu
  rw [List.append_assoc, List.append_assoc] at h
  exact append_inj_of_stops hk hl (by simpa using hc) (by simpa using hd) h

private theorem Operation.keyword_chars (o : Operation Numeral) : ∀ c ∈ o.keyword, isWordChar c := by
  unfold Operation.keyword
  split
  · simp
  · cases o.kind <;> exact List.all_eq_true.1 (by decide)

private theorem fragmentKeyword_chars : ∀ c ∈ fragmentKeyword, isWordChar c := List.all_eq_true.1 (by decide)

private theorem Operation.keyword_ne (o : Operation Numeral) : o.keyword ≠ fragmentKeyword := by
  unfold Operation.keyword
  split
  · decide
  · cases o.kind <;> decide

private theorem Fragment.tail_cons (f : Fragment Numeral) : ∃ c t, f.tail = c :: t ∧ isWordChar c = false :=
  ⟨' ', _, rfl, by decide⟩

/-- The text of a definition that selects something tells the definition and where it ends. -/
theorem Definition.readsOff {x : Definition Numeral} (hx : x.Spelled .graphQL) (hset : x.selectionSet ≠ []) :
    ReadsOff Definition.text Definition.Written (Stops (· ≠ ' ')) x := by
  intro y r s ⟨hy, yset⟩ hr hs h
  cases x with
  | operation o =>
    cases y with
    | operation p =>
      simp only [Definition.text, Operation.text_eq] at h
      obtain ⟨word, tails⟩ :=
        keyword_append_inj o.keyword_chars p.keyword_chars (o.tail_cons hset) (p.tail_cons yset) h
      obtain ⟨short, kind⟩ := Operation.shorthand_and_kind word
      obtain ⟨rfl, rest⟩ := Operation.tail_append_inj hx hy hset yset short kind hr hs tails
      exact ⟨rfl, rest⟩
    | fragment g =>
      simp only [Definition.text, Operation.text_eq, Fragment.text_eq] at h
      obtain ⟨word, _⟩ := keyword_append_inj o.keyword_chars fragmentKeyword_chars (o.tail_cons hset) g.tail_cons h
      exact absurd word o.keyword_ne
  | fragment f =>
    cases y with
    | operation p =>
      simp only [Definition.text, Operation.text_eq, Fragment.text_eq] at h
      obtain ⟨word, _⟩ := keyword_append_inj fragmentKeyword_chars p.keyword_chars f.tail_cons (p.tail_cons yset) h
      exact absurd word.symm p.keyword_ne
    | fragment g =>
      simp only [Definition.text, Fragment.text_eq, List.append_assoc] at h
      obtain ⟨rfl, rest⟩ := Fragment.tail_append_inj hx hy hr hs (List.append_cancel_left h)
      exact ⟨rfl, rest⟩

theorem Definition.text_ne_nil (x : Definition Numeral) (hset : x.selectionSet ≠ []) : x.text ≠ [] := by
  cases x with
  | operation o =>
    obtain ⟨c, t, eq, _⟩ := o.tail_cons hset
    rw [Definition.text, Operation.text_eq, eq]
    simp
  | fragment f =>
    rw [Definition.text, Fragment.text_eq, Fragment.tail]
    simp

/-! ### Documents -/

theorem Document.text_inj {d e : Document Numeral} (hd : d.WellFormed) (he : e.WellFormed) (h : d.text = e.text) :
    d.selecting = e.selecting := by
  have written {d : Document Numeral} (hd : d.WellFormed) : ∀ x ∈ d.selecting, x.Written := by
    intro x hx
    obtain ⟨mem, set⟩ := List.mem_filter.1 hx
    exact ⟨hd x mem, by simpa using set⟩
  have sp : Spacing Definition.text Definition.Written (Stops (· ≠ ' ')) (· = []) :=
    ⟨fun x r _ => by simp, fun r hr => by simp [hr], fun x r _ => by simp⟩
  have not_first (x : Definition Numeral) (r : List Char) (hx : x.Written) : ¬ x.text ++ r = [] := by
    intro eq
    exact x.text_ne_nil hx.2 (List.append_eq_nil_iff.1 eq).1
  have reads (x : Definition Numeral) (hx : x ∈ d.selecting) :
      x.Written ∧ ReadsOff Definition.text Definition.Written (Stops (· ≠ ' ')) x :=
    ⟨written hd x hx, Definition.readsOff (written hd x hx).1 (written hd x hx).2⟩
  have h : spaced (d.selecting.map Definition.text) ++ [] = spaced (e.selecting.map Definition.text) ++ [] := by
    simpa [Document.text] using h
  exact (sp.spaced_append_inj not_first reads (written he) rfl rfl h).1

/-- Well-formed documents have the same canonical text exactly if they have the same definitions in the same order, when
those that select nothing are left out. -/
theorem Document.print_eq_print_iff {d e : Document Numeral} (hd : d.WellFormed) (he : e.WellFormed) :
    d.print = e.print ↔ d.selecting = e.selecting := by
  constructor
  · intro h
    exact Document.text_inj hd he (String.ofList_inj.1 h)
  · intro h
    rw [Document.print, Document.print, Document.text, Document.text, h]

/-- A query with these arguments, among parts of many kinds. -/
private def queryWith (arguments : List (Argument Numeral)) : Document Numeral :=
  ⟨[.operation ⟨.query, some "q", [⟨"v", .list (.nonNull (.named "Int")), some (.number (.float "-1.5e+3")), []⟩], [],
    [.field ⟨some "a", "f", arguments, [], [.inlineFragment ⟨none, [], [.field (.leaf "g")]⟩]⟩]⟩]⟩

/-- One argument, whose content reads like the end of a string and another argument. -/
def oneArgument : Document Numeral := queryWith [⟨"x", .string "\" y: \""⟩]

/-- The two arguments that the content reads like. -/
def twoArguments : Document Numeral := queryWith [⟨"x", .string ""⟩, ⟨"y", .string ""⟩]

private theorem wellFormed_queryWith {arguments : List (Argument Numeral)}
    (h : ∀ a ∈ arguments, a.Spelled .graphQL) : (queryWith arguments).WellFormed := by
  have float : (Value.number (.float "-1.5e+3")).Spelled .graphQL :=
    ⟨['-', '1'], ['.', '5'], ['e', '+', '3'], by decide, by decide, by decide, by decide, by decide⟩
  have names : ∀ n ∈ ["q", "v", "Int", "a", "f", "g"], Spelling.graphQL.name n := by decide
  simp only [List.forall_mem_cons] at names
  simp only [queryWith, Document.WellFormed, Document.Spelled, List.forall_mem_singleton, Definition.Spelled,
    Operation.Spelled, VariableDefinition.Spelled, TypeRef.Spelled, SelectionSet.Spelled, Selection.Spelled, Field.leaf]
  simp [names, float]
  exact h

theorem print_oneArgument_ne_print_twoArguments :
    oneArgument.WellFormed ∧ twoArguments.WellFormed ∧ oneArgument.print ≠ twoArguments.print := by
  have one : oneArgument.WellFormed := wellFormed_queryWith (by simp [Binding.Spelled, Value.Spelled]; decide)
  have two : twoArguments.WellFormed := wellFormed_queryWith (by simp [Binding.Spelled, Value.Spelled]; decide)
  refine ⟨one, two, fun h => ?_⟩
  exact absurd ((Document.print_eq_print_iff one two).1 h) (by decide)

end PersistedQuery
