import PersistedQuery.Proofs.Canonical.Document
import PersistedQuery.Proofs.Canonical.Literal
import PersistedQuery.Text.Blank

/-!
# Gaps

Between the words of a text stand gaps, which are runs of blanks and commas outside of string literals.  `normalized`
writes each gap as a single space and leaves out those at either end.

A `Neat` text consists of words with single spaces between them, so it is its own normal form (`Neat.normalized_eq`).
The parts of a canonical text are neat, or can follow a neat text (`Continues`), if every name and numeral in them is
a plain word and every inline fragment selects something.

* `Document.normalized_print`: the canonical text of such a document has no control characters and is its own normal
  form.
-/

namespace PersistedQuery

open Text

/-! ### Words of a text -/

namespace Text

/-- Where a character of a text stands. -/
inductive Scope where
  | outside
  /-- Between the quotes of a string literal. -/
  | literal
  /-- Behind a backslash in a literal. -/
  | escaped
  deriving DecidableEq

/-- Where the next character stands. -/
def Scope.next : Scope → Char → Scope
  | .outside, c => if c = '"' then .literal else .outside
  | .literal, c => if c = '"' then .outside else if c = '\\' then .escaped else .literal
  | .escaped, _ => .literal

/-- White space and commas. -/
def isSeparator (c : Char) : Bool := isBlank c || c = ','

/-- The characters of a text, and of each whether it is part of a gap. -/
def marked : Scope → List Char → List (Char × Bool)
  | _, [] => []
  | s, c :: t => (c, s = .outside && isSeparator c) :: marked (s.next c) t

/-- What stands between the gaps of a text. -/
def words (t : List Char) : List (List Char) :=
  (((marked .outside t).splitOnP (·.2)).map (·.map (·.1))).filter (· ≠ [])

/-- The text with a single space for each gap, but none at either end. -/
def normalized (t : List Char) : List Char := spaced (words t)

/-- Read from the scope `s` on, the text has no gap and ends in the scope `u`. -/
inductive Spans : Scope → List Char → Scope → Prop where
  | nil {s : Scope} : Spans s [] s
  | cons {s u : Scope} {c : Char} {t : List Char} :
      (s = .outside → isSeparator c = false) → Spans (s.next c) t u → Spans s (c :: t) u

namespace Spans

variable {s u v : Scope} {t t' : List Char}

theorem append (h : Spans s t u) (h' : Spans u t' v) : Spans s (t ++ t') v := by
  induction h with
  | nil => exact h'
  | cons separator _ ih => exact .cons separator (ih h')

theorem singleton {c : Char} (separator : s = .outside → isSeparator c = false) (next : s.next c = u) :
    Spans s [c] u := by
  subst next
  exact .cons separator .nil

/-- In a literal no character makes a gap. -/
theorem inLiteral {c : Char} (quote : c ≠ '"') (backslash : c ≠ '\\') : Spans .literal [c] .literal := by
  apply singleton
  · intro outside
    cases outside
  · simp [Scope.next, quote, backslash]

theorem ofForall (h : ∀ c ∈ t, Spans s [c] s) : Spans s t s := by
  induction t with
  | nil => exact .nil
  | cons c t ih =>
    rw [List.forall_mem_cons] at h
    exact h.1.append (ih h.2)

theorem marked_append (h : Spans s t u) (r : List Char) : marked s (t ++ r) = t.map (·, false) ++ marked u r := by
  induction h with
  | nil => rfl
  | @cons s u c t separator _ ih =>
    have no_gap : (decide (s = .outside) && isSeparator c) = false := by
      cases s with
      | outside => simpa using separator rfl
      | literal => rfl
      | escaped => rfl
    rw [List.cons_append, marked, no_gap, ih]
    rfl

end Spans

/-- A text without gaps and control characters, whose literals are all complete. -/
structure Word (t : List Char) : Prop where
  ne_nil : t ≠ []
  spans : Spans .outside t .outside
  graphic : ∀ c ∈ t, isControl c = false

namespace Word

variable {w : List Char}

theorem append {w' : List Char} (h : Word w) (h' : Word w') : Word (w ++ w') where
  ne_nil := by
    intro eq
    exact h.ne_nil (List.append_eq_nil_iff.1 eq).1
  spans := h.spans.append h'.spans
  graphic := List.forall_mem_append.2 ⟨h.graphic, h'.graphic⟩

theorem singleton {c : Char} (separator : isSeparator c = false) (quote : c ≠ '"') (graphic : isControl c = false) :
    Word [c] where
  ne_nil := by simp
  spans := Spans.singleton (fun _ => separator) (by simp [Scope.next, quote])
  graphic := by simpa using graphic

private theorem map_fst_marked (w : List Char) : (w.map (·, false)).map (·.1) = w := by
  rw [List.map_map]
  exact List.map_id w

private theorem not_gap (w : List Char) : ∀ x ∈ w.map (·, false), x.2 = false := by
  simp

theorem words_eq (h : Word w) : words w = [w] := by
  have whole : marked .outside w = w.map (·, false) := by
    have marks := h.spans.marked_append []
    rwa [List.append_nil, marked, List.append_nil] at marks
  unfold words
  rw [whole, List.splitOnP_eq_singleton (not_gap w), List.map_singleton, map_fst_marked]
  simp [h.ne_nil]

theorem words_append_space (h : Word w) (r : List Char) : words (w ++ ' ' :: r) = w :: words r := by
  have space : marked .outside (' ' :: r) = (' ', true) :: marked .outside r := rfl
  unfold words
  rw [h.spans.marked_append, space, List.splitOnP_append_cons_of_forall_mem (not_gap w) _ rfl, List.map_cons,
    map_fst_marked, List.filter_cons_of_pos (by simp [h.ne_nil])]

end Word

/-- The text of words with single spaces between them has these words. -/
theorem words_spaced {ws : List (List Char)} (h : ∀ w ∈ ws, Word w) : words (spaced ws) = ws := by
  induction ws with
  | nil => rfl
  | cons w ws ih =>
    rw [List.forall_mem_cons] at h
    cases ws with
    | nil => simpa [spaced_cons] using h.1.words_eq
    | cons w' ws =>
      have split : spaced (w :: w' :: ws) = w ++ ' ' :: spaced (w' :: ws) := by simp [spaced_cons]
      rw [split, h.1.words_append_space, ih h.2]

/-! ### Neat texts -/

/-- The text consists of words with single spaces between them. -/
def Neat (t : List Char) : Prop := ∃ ws, ws ≠ [] ∧ (∀ w ∈ ws, Word w) ∧ t = spaced ws

theorem Word.neat {w : List Char} (h : Word w) : Neat w := ⟨[w], by simp, by simpa using h, by simp [spaced_cons]⟩

theorem spaced_append {ts us : List (List Char)} (hts : ts ≠ []) (hus : us ≠ []) :
    spaced (ts ++ us) = spaced ts ++ ' ' :: spaced us := by
  obtain ⟨t, ts, rfl⟩ := List.exists_cons_of_ne_nil hts
  obtain ⟨u, us, rfl⟩ := List.exists_cons_of_ne_nil hus
  simp [spaced_cons]

namespace Neat

variable {t u : List Char}

/-- Of two texts with a space between them the words are those of both. -/
theorem space (ht : Neat t) (hu : Neat u) : Neat (t ++ ' ' :: u) := by
  obtain ⟨ws, nonempty, words, rfl⟩ := ht
  obtain ⟨ws', nonempty', words', rfl⟩ := hu
  refine ⟨ws ++ ws', by simp [nonempty], List.forall_mem_append.2 ⟨words, words'⟩, ?_⟩
  rw [spaced_append nonempty nonempty']

/-- Of two texts one behind the other the last word of the first and the first word of the second become one. -/
theorem append (ht : Neat t) (hu : Neat u) : Neat (t ++ u) := by
  obtain ⟨ws, nonempty, words, rfl⟩ := ht
  obtain ⟨ws', nonempty', words', rfl⟩ := hu
  obtain ⟨before, w, rfl⟩ := List.eq_nil_or_concat ws |>.resolve_left nonempty
  obtain ⟨w', after, rfl⟩ := List.exists_cons_of_ne_nil nonempty'
  simp only [List.concat_eq_append] at words ⊢
  rw [List.forall_mem_append, List.forall_mem_singleton] at words
  rw [List.forall_mem_cons] at words'
  have joined := words.2.append words'.1
  refine ⟨before ++ (w ++ w') :: after, by simp, ?_, ?_⟩
  · exact List.forall_mem_append.2 ⟨words.1, List.forall_mem_cons.2 ⟨joined, words'.2⟩⟩
  · cases before with
    | nil => simp [spaced_cons]
    | cons b before => simp [spaced_cons]

theorem spaced {ts : List (List Char)} (nonempty : ts ≠ []) (h : ∀ t ∈ ts, Neat t) :
    Neat (PersistedQuery.spaced ts) := by
  induction ts with
  | nil => exact absurd rfl nonempty
  | cons t ts ih =>
    rw [List.forall_mem_cons] at h
    cases ts with
    | nil => simpa [spaced_cons] using h.1
    | cons u ts =>
      have tail := ih (by simp) h.2
      rw [show t :: u :: ts = [t] ++ (u :: ts) by rfl, spaced_append (by simp) (by simp)]
      simpa [spaced_cons] using h.1.space tail

theorem normalized_eq (h : Neat t) : normalized t = t := by
  obtain ⟨ws, _, words, rfl⟩ := h
  rw [normalized, words_spaced words]

theorem not_isControl (h : Neat t) : ∀ c ∈ t, isControl c = false := by
  obtain ⟨ws, _, words, rfl⟩ := h
  cases ws with
  | nil => simp
  | cons w ws =>
    rw [List.forall_mem_cons] at words
    rw [spaced_cons]
    refine List.forall_mem_append.2 ⟨words.1.graphic, fun c mem => ?_⟩
    obtain ⟨w', mem', char⟩ := List.mem_flatMap.1 mem
    rcases List.mem_cons.1 char with rfl | char
    · decide
    · exact (words.2 w' mem').graphic c char

end Neat

/-! ### Parts that follow a neat text -/

/-- Behind any neat text the part leaves the whole neat. -/
def Continues (t : List Char) : Prop := ∀ before, Neat before → Neat (before ++ t)

theorem continues_nil : Continues [] := by
  intro before neat
  rwa [List.append_nil]

theorem Neat.continues {t : List Char} (h : Neat t) : Continues t := fun _ neat => neat.append h

theorem Neat.continues_space {t : List Char} (h : Neat t) : Continues (' ' :: t) := fun _ neat => neat.space h

namespace Continues

variable {t u : List Char}

theorem append (ht : Continues t) (hu : Continues u) : Continues (t ++ u) := by
  intro before neat
  rw [← List.append_assoc]
  exact hu _ (ht before neat)

theorem flatMap {α : Type} {f : α → List Char} {as : List α} (h : ∀ a ∈ as, Continues (f a)) :
    Continues (as.flatMap f) := by
  induction as with
  | nil => exact continues_nil
  | cons a as ih =>
    rw [List.forall_mem_cons] at h
    rw [List.flatMap_cons]
    exact h.1.append (ih h.2)

end Continues

theorem neat_cons {c : Char} (separator : isSeparator c = false) (quote : c ≠ '"') (graphic : isControl c = false)
    {t : List Char} (h : Continues t) : Neat (c :: t) :=
  h [c] (Word.singleton separator quote graphic).neat

/-- Neat parts between brackets, with single spaces between them. -/
theorem neat_bracketed {first last : Char} (hfirst : Word [first]) (hlast : Word [last]) {ts : List (List Char)}
    (h : ∀ t ∈ ts, Neat t) : Neat (first :: spaced ts ++ [last]) := by
  by_cases empty : ts = []
  · subst empty
    exact (hfirst.append hlast).neat
  · exact (hfirst.neat.append (Neat.spaced empty h)).append hlast.neat

end Text

/-! ### Plain words -/

/-- No white space, comma, double quote or control character. -/
def Text.isPlain (c : Char) : Bool := !isSeparator c && c ≠ '"' && !isControl c

def Text.isPlainWord (t : List Char) : Bool := !t.isEmpty && t.all isPlain

/-- Plain words as names, enum values and numerals. -/
def Spelling.plain : Spelling where
  name s := Text.isPlainWord s.toList
  enum s := Text.isPlainWord s.toList
  numeral n := Text.isPlainWord n.text

instance (name : String) : Decidable (Spelling.plain.name name) :=
  inferInstanceAs (Decidable (Text.isPlainWord name.toList = true))

theorem Text.Word.ofPlain {t : List Char} (h : isPlainWord t) : Word t := by
  simp only [isPlainWord, isPlain, Bool.and_eq_true, Bool.not_eq_true', List.isEmpty_eq_false_iff, List.all_eq_true,
    decide_eq_true_eq] at h
  obtain ⟨nonempty, plain⟩ := h
  refine ⟨nonempty, Spans.ofForall fun c mem => ?_, fun c mem => (plain c mem).2⟩
  have next : Scope.outside.next c = .outside := if_neg (plain c mem).1.2
  exact Spans.singleton (fun _ => (plain c mem).1.1) next

/-! ### Values -/

private theorem spans_escape (c : Char) : Spans .literal (stringLiteral.escape c) .literal := by
  -- a backslash takes the next character out of the scan, whatever it is
  have escaped (letter : Char) : Spans .literal ['\\', letter] .literal :=
    .cons (fun outside => by cases outside) (.cons (fun outside => by cases outside) .nil)
  unfold Quoting.escape
  split
  · exact escaped _
  · rename_i unescaped
    split
    · have digits : Spans .literal ((hex 4 c.toNat).map Char.toUpper) .literal := by
        refine Spans.ofForall fun d mem => ?_
        obtain ⟨e, mem', rfl⟩ := List.mem_map.1 mem
        have upper : hexDigits.all (fun e => e.toUpper ≠ '"' ∧ e.toUpper ≠ '\\') = true := by decide
        have free := List.all_eq_true.1 upper e (mem_hexDigits_of_mem_hex mem')
        obtain ⟨quote, backslash⟩ := of_decide_eq_true free
        exact Spans.inLiteral quote backslash
      exact (escaped 'u').append digits
    · apply Spans.inLiteral
      · rintro rfl
        cases unescaped
      · rintro rfl
        cases unescaped

/-- A string literal is a word, whatever gaps there are in the string. -/
theorem word_stringLiteral (content : List Char) : Word (stringLiteral.quote content) where
  ne_nil := by simp [Quoting.quote]
  spans := by
    have body : Spans .literal (content.flatMap stringLiteral.escape) .literal := by
      induction content with
      | nil => exact .nil
      | cons c content ih => exact (spans_escape c).append ih
    have opening : Spans .outside ['"'] .literal := .singleton (fun _ => rfl) rfl
    have closing : Spans .literal ['"'] .outside := .singleton (fun outside => by cases outside) rfl
    exact opening.append (body.append closing)
  graphic := fun _ => not_isControl_of_mem_stringLiteral

/-- A name, a colon and, behind a space, what is named. -/
theorem neat_labelled {name : String} (hname : Spelling.plain.name name) {t : List Char} (h : Neat t) :
    Neat (labelled name t) := by
  have label : Word (name.toList ++ [':']) :=
    (Word.ofPlain hname).append (Word.singleton (by decide) (by decide) (by decide))
  simpa [labelled] using label.neat.space h

theorem Value.neat_text {v : Value Numeral} (h : v.Spelled .plain) : Neat v.text := by
  induction v using Value.induction with
  | var name => exact neat_cons (by decide) (by decide) (by decide) (Word.ofPlain h).neat.continues
  | string content =>
    rw [Value.text]
    exact (word_stringLiteral _).neat
  | number n => exact (Word.ofPlain h).neat
  | boolean b => cases b <;> exact (Word.ofPlain (by decide)).neat
  | enum name => exact (Word.ofPlain h).neat
  | list items ih =>
    rw [Value.Spelled, Value.itemsSpelled_iff] at h
    rw [Value.text, Value.texts_eq_map]
    refine neat_bracketed (Word.ofPlain (by decide)) (Word.ofPlain (by decide)) (List.forall_mem_map.2 ?_)
    exact fun v mem => ih v mem (h v mem)
  | object fields ih =>
    rw [Value.Spelled, Value.fieldsSpelled_iff] at h
    rw [Value.text, Value.fieldTexts_eq_map]
    refine neat_bracketed (Word.ofPlain (by decide)) (Word.ofPlain (by decide)) (List.forall_mem_map.2 ?_)
    exact fun b mem => neat_labelled (h b mem).1 (ih b mem (h b mem).2)
  | null => exact (Word.ofPlain (by decide)).neat

theorem Binding.neat_text {b : Binding (Value Numeral)} (h : b.Spelled .plain) : Neat b.text :=
  neat_labelled h.1 (Value.neat_text h.2)

/-! ### Arguments and directives -/

theorem continues_parenthesized {ts : List (List Char)} (h : ∀ t ∈ ts, Neat t) : Continues (parenthesized ts) := by
  unfold parenthesized
  split
  · exact continues_nil
  · exact (neat_bracketed (Word.ofPlain (by decide)) (Word.ofPlain (by decide)) h).continues

theorem continues_arguments {arguments : List (Argument Numeral)} (h : ∀ b ∈ arguments, b.Spelled .plain) :
    Continues (argumentsText arguments) :=
  continues_parenthesized (List.forall_mem_map.2 fun b mem => Binding.neat_text (h b mem))

theorem Directive.neat_text {d : Directive Numeral} (h : d.Spelled .plain) : Neat d.text :=
  neat_cons (by decide) (by decide) (by decide) ((Word.ofPlain h.1).neat.continues.append (continues_arguments h.2))

theorem continues_directives {directives : List (Directive Numeral)} (h : ∀ d ∈ directives, d.Spelled .plain) :
    Continues (directivesText directives) :=
  Continues.flatMap fun d mem => (Directive.neat_text (h d mem)).continues_space

/-! ### Selections -/

mutual

/-- Every inline fragment in the selection selects something. -/
def Selection.FragmentsSelect {ν : Type} : Selection ν → Prop
  | .field f => SelectionSet.FragmentsSelect f.selectionSet
  | .spread _ => True
  | .inlineFragment f => f.selectionSet ≠ [] ∧ SelectionSet.FragmentsSelect f.selectionSet

def SelectionSet.FragmentsSelect {ν : Type} : SelectionSet ν → Prop
  | [] => True
  | s :: set => s.FragmentsSelect ∧ SelectionSet.FragmentsSelect set

end

/-- Every inline fragment in the document selects something. -/
def Document.FragmentsSelect {ν : Type} (d : Document ν) : Prop :=
  ∀ x ∈ d.definitions, SelectionSet.FragmentsSelect x.selectionSet

theorem SelectionSet.fragmentsSelect_iff {ν : Type} (set : SelectionSet ν) :
    SelectionSet.FragmentsSelect set ↔ ∀ s ∈ set, s.FragmentsSelect := by
  induction set with
  | nil => simp [SelectionSet.FragmentsSelect]
  | cons s set ih => simp [SelectionSet.FragmentsSelect, ih]

theorem neat_braced {ts : List (List Char)} (nonempty : ts ≠ []) (h : ∀ t ∈ ts, Neat t) : Neat (braced ts) := by
  have opening : Neat ['\x7b'] := (Word.ofPlain (by decide)).neat
  have closing : Neat ['\x7d'] := (Word.ofPlain (by decide)).neat
  have whole := opening.space ((Neat.spaced nonempty h).space closing)
  simpa [braced, nonempty] using whole

theorem neat_selectionSet {set : SelectionSet Numeral} (nonempty : set ≠ []) (h : ∀ s ∈ set, Neat s.text) :
    Neat (SelectionSet.text set) := by
  rw [SelectionSet.text, SelectionSet.texts_eq_map]
  exact neat_braced (by simpa using nonempty) (List.forall_mem_map.2 h)

private theorem continues_subselection {set : SelectionSet Numeral} (h : ∀ s ∈ set, Neat s.text) :
    Continues (subselectionText set) := by
  unfold subselectionText
  split
  · exact continues_nil
  · rename_i nonempty
    exact (neat_selectionSet (by simpa using nonempty) h).continues_space

private theorem continues_condition {typeCondition : Option String} (h : ∀ t ∈ typeCondition, Spelling.plain.name t) :
    Continues (conditionText typeCondition) := by
  cases typeCondition with
  | none => exact continues_nil
  | some name =>
    have on : Neat ['o', 'n'] := (Word.ofPlain (by decide)).neat
    have condition := (on.space (Word.ofPlain (h name rfl)).neat).continues_space
    simpa [conditionText, introduced] using condition

private theorem neat_response {aliasName : Option String} {name : String}
    (ha : ∀ a ∈ aliasName, Spelling.plain.name a) (hn : Spelling.plain.name name) :
    Neat (responseText aliasName name) := by
  cases aliasName with
  | none => exact (Word.ofPlain hn).neat
  | some a => exact neat_labelled (ha a rfl) (Word.ofPlain hn).neat

theorem Selection.neat_text {s : Selection Numeral} (h : s.Spelled .plain) (fragments : s.FragmentsSelect) :
    Neat s.text := by
  have dots : Neat ['.', '.', '.'] := (Word.ofPlain (by decide)).neat
  induction s using Selection.induction with
  | field f ih =>
    obtain ⟨⟨aliasName, name, arguments, directives⟩, spelled⟩ := h
    rw [Selection.FragmentsSelect, SelectionSet.fragmentsSelect_iff] at fragments
    rw [SelectionSet.spelled_iff] at spelled
    rw [Selection.text_field]
    have set : Continues (subselectionText f.selectionSet) :=
      continues_subselection fun s mem => ih s mem (spelled s mem) (fragments s mem)
    have annotations := (continues_arguments arguments).append ((continues_directives directives).append set)
    exact annotations _ (neat_response aliasName name)
  | spread s =>
    rw [Selection.text_spread]
    have name := (Word.ofPlain h.1).neat.continues
    exact (name.append (continues_directives h.2)) _ dots
  | inlineFragment f ih =>
    obtain ⟨⟨condition, directives⟩, spelled⟩ := h
    obtain ⟨nonempty, fragments⟩ := fragments
    rw [SelectionSet.fragmentsSelect_iff] at fragments
    rw [SelectionSet.spelled_iff] at spelled
    rw [Selection.text_inlineFragment]
    have set := (neat_selectionSet nonempty fun s mem => ih s mem (spelled s mem) (fragments s mem)).continues_space
    have behind := (continues_condition condition).append ((continues_directives directives).append set)
    exact behind _ dots

/-! ### Definitions -/

theorem TypeRef.word_text {t : TypeRef} (h : t.Spelled .plain) : Word t.text := by
  induction t with
  | named name => exact Word.ofPlain h
  | list item ih =>
    have opening : Word ['['] := Word.ofPlain (by decide)
    have closing : Word [']'] := Word.ofPlain (by decide)
    exact (opening.append (ih h)).append closing
  | nonNull inner ih => exact (ih h).append (Word.ofPlain (by decide))

theorem VariableDefinition.neat_text {v : VariableDefinition Numeral} (h : v.Spelled .plain) : Neat v.text := by
  obtain ⟨name, type, value, directives⟩ := h
  have label : Word (variableText v.name ++ [':']) := by
    have dollar : Word ['$'] := Word.ofPlain (by decide)
    exact (dollar.append (Word.ofPlain name)).append (Word.ofPlain (by decide))
  have initial : Continues (v.defaultValue.elim [] fun value => " = ".toList ++ value.text) := by
    cases eq : v.defaultValue with
    | none => exact continues_nil
    | some w =>
      have sign : Neat ['='] := (Word.ofPlain (by decide)).neat
      exact (sign.space (Value.neat_text (value w eq))).continues_space
  have whole := (initial.append (continues_directives directives)) _ (label.neat.space (TypeRef.word_text type).neat)
  simpa [VariableDefinition.text] using whole

private theorem continues_heading {name : Option String} {definitions : List (VariableDefinition Numeral)}
    (hn : ∀ n ∈ name, Spelling.plain.name n) (hds : ∀ v ∈ definitions, v.Spelled .plain) :
    Continues (headingText name definitions) := by
  have texts : ∀ t ∈ definitions.map VariableDefinition.text, Neat t :=
    List.forall_mem_map.2 fun v mem => VariableDefinition.neat_text (hds v mem)
  cases name with
  | some name => exact (Word.ofPlain (hn name rfl)).neat.continues_space.append (continues_parenthesized texts)
  | none =>
    cases definitions with
    | nil => exact continues_nil
    | cons v vs =>
      have bracketed :=
        neat_bracketed (Word.ofPlain (t := ['(']) (by decide)) (Word.ofPlain (t := [')']) (by decide)) texts
      exact bracketed.continues_space

theorem Definition.neat_text {x : Definition Numeral} (h : x.Spelled .plain)
    (fragments : SelectionSet.FragmentsSelect x.selectionSet) (selects : x.selectionSet ≠ []) : Neat x.text := by
  have set (spelled : SelectionSet.Spelled .plain x.selectionSet) : Neat (SelectionSet.text x.selectionSet) := by
    rw [SelectionSet.fragmentsSelect_iff] at fragments
    rw [SelectionSet.spelled_iff] at spelled
    exact neat_selectionSet selects fun s mem => Selection.neat_text (spelled s mem) (fragments s mem)
  cases x with
  | operation o =>
    obtain ⟨name, definitions, directives, spelled⟩ := h
    rw [Definition.text, Operation.text_eq, Operation.keyword, Operation.tail]
    by_cases short : o.isShorthand
    · rw [if_pos short, if_pos short]
      exact set spelled
    · rw [if_neg short, if_neg short]
      have kind : Neat o.kind.text := by
        cases o.kind <;> exact (Word.ofPlain (by decide)).neat
      have tail := (continues_heading name definitions).append
        ((continues_directives directives).append (set spelled).continues_space)
      exact tail _ kind
  | fragment f =>
    obtain ⟨name, typeCondition, directives, spelled⟩ := h
    rw [Definition.text, Fragment.text_eq, Fragment.tail]
    have keyword : Neat fragmentKeyword := (Word.ofPlain (by decide)).neat
    have condition : Continues (conditionText (some f.typeCondition)) :=
      continues_condition (by simpa using typeCondition)
    have behind := condition.append ((continues_directives directives).append (set spelled).continues_space)
    exact keyword.space (behind _ (Word.ofPlain name).neat)

/-! ### Documents -/

/-- If every name, enum value and numeral of a document is a plain word and every inline fragment selects something,
there is no control character in its canonical text, and writing a single space for each gap, with none at either end,
changes nothing.  The contents of strings are free. -/
theorem Document.normalized_print {d : Document Numeral} (spelled : d.Spelled .plain)
    (fragments : d.FragmentsSelect) :
    (∀ c ∈ d.print.toList, isControl c = false) ∧ normalized d.print.toList = d.print.toList := by
  rw [Document.print, String.toList_ofList]
  by_cases empty : d.selecting = []
  · rw [Document.text, empty]
    exact ⟨by simp, rfl⟩
  · have neat : Neat d.text := by
      refine Neat.spaced (by simpa using empty) (List.forall_mem_map.2 fun x mem => ?_)
      obtain ⟨mem, selects⟩ := List.mem_filter.1 mem
      exact Definition.neat_text (spelled x mem) (fragments x mem) (by simpa using selects)
    exact ⟨neat.not_isControl, neat.normalized_eq⟩

/-- A query whose string has gaps, a quote and a backslash at its end. -/
def gapsInString : Document Numeral :=
  ⟨[.operation (.shorthand
    [.field ⟨some "a", "f", [⟨"x", .string "\" ,\t \\"⟩, ⟨"y", .list [.null, .enum "E"]⟩], [⟨"d", []⟩],
      [.inlineFragment ⟨some "T", [], [.field (.leaf "g")]⟩]⟩])]⟩

theorem Document.normalized_print_gapsInString :
    gapsInString.Spelled .plain ∧ gapsInString.FragmentsSelect ∧
      gapsInString.print = "\x7b a: f(x: \"\\\" ,\\t \\\\\" y: [null E]) @d \x7b ... on T \x7b g \x7d \x7d \x7d" ∧
      normalized gapsInString.print.toList = gapsInString.print.toList := by
  have names : ∀ n ∈ ["a", "f", "x", "y", "E", "d", "T", "g"], Spelling.plain.name n := by decide
  have enum : Spelling.plain.enum "E" := (by decide : isPlainWord "E".toList)
  simp only [List.forall_mem_cons] at names
  have spelled : gapsInString.Spelled .plain := by
    simp [gapsInString, Document.Spelled, Definition.Spelled, Operation.Spelled, Operation.shorthand,
      SelectionSet.Spelled, Selection.Spelled, Binding.Spelled, Value.Spelled, Value.ItemsSpelled, Directive.Spelled,
      Field.leaf, names, enum]
  have fragments : gapsInString.FragmentsSelect := by
    simp [gapsInString, Document.FragmentsSelect, Definition.selectionSet, Operation.shorthand,
      SelectionSet.FragmentsSelect, Selection.FragmentsSelect, Field.leaf]
  exact ⟨spelled, fragments, by decide, (Document.normalized_print spelled fragments).2⟩

/-- Gaps of several characters become single spaces, but not those in a literal, which goes on behind `\"`. -/
example : normalized " a ,, \" ,\\\",  \" b,".toList = "a \" ,\\\",  \" b".toList := by decide

end PersistedQuery
