import PersistedQuery.Proofs.Quoted
import PersistedQuery.Proofs.Reading
import PersistedQuery.Proofs.Spelling
import PersistedQuery.Proofs.Tree

/-!
# Reading off values, arguments and directives

The text of a well-formed value tells the value and where it ends, if no character of a word follows (`Value.readsOff`).
The first character tells the kind of value, up to the words, which are enum values, booleans and `null`.  From values
this passes to lists of arguments (`arguments_append_inj`) and of directives (`directives_append_inj`).
-/

namespace PersistedQuery

open Text

/-! ### Names and numerals -/

private theorem word_chars {name : String} (h : Spelling.graphQL.name name) : ∀ c ∈ name.toList, isWordChar c := by
  obtain ⟨_, _, _, _, chars⟩ := exists_cons_of_isName h
  exact chars

theorem name_append_inj {a b : String} {r s : List Char} (ha : Spelling.graphQL.name a)
    (hb : Spelling.graphQL.name b) (hr : Stops isWordChar r) (hs : Stops isWordChar s)
    (h : a.toList ++ r = b.toList ++ s) : a = b ∧ r = s := by
  obtain ⟨eq, rest⟩ := append_inj_of_stops (word_chars ha) (word_chars hb) hr hs h
  exact ⟨String.toList_inj.1 eq, rest⟩

theorem name_readsOff {name : String} (h : Spelling.graphQL.name name) :
    ReadsOff String.toList Spelling.graphQL.name (Stops isWordChar) name :=
  fun _ _ _ other hr hs eq => name_append_inj h other hr hs eq

theorem labelled_append_inj {a b : String} {t u r s : List Char} (ha : Spelling.graphQL.name a)
    (hb : Spelling.graphQL.name b) (h : labelled a t ++ r = labelled b u ++ s) : a = b ∧ t ++ r = u ++ s := by
  simp only [labelled, List.append_assoc] at h
  obtain ⟨rfl, rest⟩ := name_append_inj ha hb (by simp; decide) (by simp; decide) h
  exact ⟨rfl, by simpa using rest⟩

private theorem numeral_cons {n : Numeral} (h : Spelling.graphQL.numeral n) :
    ∃ c t, n.text = c :: t ∧ (c = '-' ∨ c.isDigit) ∧ ∀ d ∈ n.text, isWordChar d := by
  cases n with
  | int text =>
    obtain ⟨c, t, eq, chars⟩ := exists_cons_of_isInt h
    refine ⟨c, t, eq, chars c (by simp [eq]), fun d hd => ?_⟩
    rcases chars d hd with rfl | digit
    · decide
    · exact isWordChar_of_isDigit digit
  | float text =>
    obtain ⟨c, t, eq, first, chars, _⟩ := exists_cons_of_isFloat h
    exact ⟨c, t, eq, first, chars⟩

theorem numeral_append_inj {m n : Numeral} {r s : List Char} (hm : Spelling.graphQL.numeral m)
    (hn : Spelling.graphQL.numeral n) (hr : Stops isWordChar r) (hs : Stops isWordChar s)
    (h : m.text ++ r = n.text ++ s) : m = n ∧ r = s := by
  obtain ⟨_, _, _, _, mc⟩ := numeral_cons hm
  obtain ⟨_, _, _, _, nc⟩ := numeral_cons hn
  obtain ⟨eq, rest⟩ := append_inj_of_stops mc nc hr hs h
  refine ⟨?_, rest⟩
  cases m with
  | int a =>
    cases n with
    | int b => rw [String.toList_inj.1 eq]
    | float b => exact absurd hn (String.toList_inj.1 eq ▸ not_isFloat_of_isInt hm)
  | float a =>
    cases n with
    | int b => exact absurd hm (String.toList_inj.1 eq ▸ not_isFloat_of_isInt hn)
    | float b => rw [String.toList_inj.1 eq]

theorem stringLiteral_plain : stringLiteral.Plain fun c => !isControl c where
  short := rfl
  numeral c h := by
    refine ⟨_, rfl, by simp [length_hex], ?_⟩
    rw [readHex_map_hex (by decide)]
    -- a control character has a code point of at most two digits
    have bound : c.toNat < Nat.pow 16 4 := by
      simp only [stringLiteral, isControl, Bool.or_eq_true, Bool.and_eq_true, decide_eq_true_eq] at h
      change c.toNat < 65536
      omega
    rw [Nat.mod_eq_of_lt bound]
  raw_of_not_numbered c h := by
    change isControl c = false at h
    rw [h]
    rfl

/-! ### Values -/

/-- What the first character of a value tells about it. -/
inductive Lead where
  | none
  | dollar
  | quote
  | digit
  | letter
  | bracket
  | brace
  deriving DecidableEq

def Lead.of (c : Char) : Lead :=
  if c = '$' then .dollar
  else if c = '"' then .quote
  else if c = '[' then .bracket
  else if c = '\x7b' then .brace
  else if isNameStart c then .letter
  else if c = '-' || c.isDigit then .digit
  else .none

def Value.lead : Value Numeral → Lead
  | .variable _ => .dollar
  | .string _ => .quote
  | .number _ => .digit
  | .boolean _ | .enum _ | .null => .letter
  | .list _ => .bracket
  | .object _ => .brace

private theorem lead_of_isNameStart {c : Char} (h : isNameStart c) : Lead.of c = .letter := by
  have ne : c ≠ '$' ∧ c ≠ '"' ∧ c ≠ '[' ∧ c ≠ '\x7b' := by
    refine ⟨?_, ?_, ?_, ?_⟩ <;> rintro rfl <;> exact absurd h (by decide)
  simp [Lead.of, ne, h]

private theorem lead_of_digit {c : Char} (h : c = '-' ∨ c.isDigit) : Lead.of c = .digit := by
  have start : isNameStart c = false := by
    rcases h with rfl | h
    · decide
    · exact not_isNameStart_of_isDigit h
  have ne : c ≠ '$' ∧ c ≠ '"' ∧ c ≠ '[' ∧ c ≠ '\x7b' := by
    refine ⟨?_, ?_, ?_, ?_⟩ <;> rintro rfl <;> exact absurd h (by decide)
  simp [Lead.of, ne, start, h]

theorem Value.lead_text {v : Value Numeral} (h : v.Spelled .graphQL) :
    ∃ c t, v.text = c :: t ∧ Lead.of c = v.lead := by
  cases v with
  | number n =>
    obtain ⟨c, t, eq, first, _⟩ := numeral_cons h
    exact ⟨c, t, eq, lead_of_digit first⟩
  | boolean b =>
    cases b with
    | false => exact ⟨'f', _, rfl, rfl⟩
    | true => exact ⟨'t', _, rfl, rfl⟩
  | enum name =>
    obtain ⟨c, t, eq, first, _⟩ := exists_cons_of_isName h.1
    exact ⟨c, t, eq, lead_of_isNameStart first⟩
  | null => exact ⟨'n', _, rfl, rfl⟩
  | _ => exact ⟨_, _, rfl, rfl⟩

theorem Value.lead_eq {v w : Value Numeral} {r s : List Char} (hv : v.Spelled .graphQL) (hw : w.Spelled .graphQL)
    (h : v.text ++ r = w.text ++ s) : v.lead = w.lead := by
  obtain ⟨c, t, ev, lv⟩ := Value.lead_text hv
  obtain ⟨d, u, ew, lw⟩ := Value.lead_text hw
  simp only [ev, ew, List.cons_append, List.cons.injEq] at h
  rw [← lv, ← lw, h.1]

/-- No value begins with a character that tells of none. -/
theorem Value.not_prefix_text {v : Value Numeral} (hv : v.Spelled .graphQL) {c : Char} (hc : Lead.of c = .none)
    (r : List Char) : ¬ [c] <+: v.text ++ r := by
  obtain ⟨d, t, ev, lv⟩ := Value.lead_text hv
  intro h
  rw [ev] at h
  obtain rfl := (List.cons_prefix_cons.1 h).1
  rw [hc] at lv
  cases v <;> cases lv

/-- The words among the values, as they are written. -/
def Value.word : Value Numeral → String
  | .boolean true => "true"
  | .boolean false => "false"
  | .enum name => name
  | .null => "null"
  | _ => ""

private theorem Value.text_of_letter {v : Value Numeral} (lead : v.lead = .letter) : v.text = v.word.toList := by
  cases v with
  | boolean b => cases b <;> rfl
  | enum name => rfl
  | null => rfl
  | _ => cases lead

private theorem Value.word_chars {v : Value Numeral} (hv : v.Spelled .graphQL) (lead : v.lead = .letter) :
    ∀ c ∈ v.word.toList, isWordChar c := by
  cases v with
  | boolean b => cases b <;> exact List.all_eq_true.1 (by decide)
  | enum name => exact PersistedQuery.word_chars hv.1
  | null => exact List.all_eq_true.1 (by decide)
  | _ => cases lead

def Value.ofWord (word : String) : Value Numeral :=
  if word = "true" then .boolean true
  else if word = "false" then .boolean false
  else if word = "null" then .null
  else .enum word

private theorem Value.ofWord_word {v : Value Numeral} (hv : v.Spelled .graphQL) (lead : v.lead = .letter) :
    Value.ofWord v.word = v := by
  cases v with
  | boolean b => cases b <;> rfl
  | enum name =>
    have free := hv.2
    simp only [reservedValues, List.mem_cons, List.not_mem_nil, or_false, not_or] at free
    simp [Value.word, Value.ofWord, free]
  | null => rfl
  | _ => cases lead

private theorem Value.word_append_inj {v w : Value Numeral} {r s : List Char} (hv : v.Spelled .graphQL)
    (hw : w.Spelled .graphQL) (lv : v.lead = .letter) (lw : w.lead = .letter) (hr : Stops isWordChar r)
    (hs : Stops isWordChar s) (h : v.text ++ r = w.text ++ s) : v = w ∧ r = s := by
  rw [Value.text_of_letter lv, Value.text_of_letter lw] at h
  obtain ⟨eq, rest⟩ := append_inj_of_stops (Value.word_chars hv lv) (Value.word_chars hw lw) hr hs h
  refine ⟨?_, rest⟩
  rw [← Value.ofWord_word hv lv, ← Value.ofWord_word hw lw, String.toList_inj.1 eq]

/-- Parts of a list that is closed by a character that stands in no word. -/
theorem spacing_of_close {α : Type} {text : α → List Char} {ok : α → Prop} {close : Char}
    (hc : isWordChar close = false) (space : close ≠ ' ') :
    Spacing text ok (Stops isWordChar) ([close] <+: ·) where
  next a r _ := by
    rw [List.cons_append, stops_cons]
    decide
  last r h := by
    obtain ⟨t, rfl⟩ := h
    rw [List.singleton_append, stops_cons, hc]
  not_next a r _ h := space (List.cons_prefix_cons.1 h).1

private theorem Binding.not_prefix_text {b : Binding (Value Numeral)} (hb : b.Spelled .graphQL) {c : Char}
    (hc : isNameStart c = false) (r : List Char) : ¬ [c] <+: b.text ++ r := by
  obtain ⟨d, t, eq, first, _⟩ := exists_cons_of_isName hb.1
  intro h
  simp only [Binding.text, labelled, eq] at h
  obtain rfl := (List.cons_prefix_cons.1 h).1
  rw [hc] at first
  cases first

private theorem Binding.readsOff {b : Binding (Value Numeral)} (hb : b.Spelled .graphQL)
    (ih : ReadsOff Value.text (Value.Spelled .graphQL) (Stops isWordChar) b.value) :
    ReadsOff Binding.text (Binding.Spelled .graphQL) (Stops isWordChar) b := by
  intro c r s hc hr hs h
  obtain ⟨name, rest⟩ := labelled_append_inj hb.1 hc.1 h
  obtain ⟨value, rest⟩ := ih hc.2 hr hs rest
  refine ⟨?_, rest⟩
  obtain ⟨_, _⟩ := b
  obtain ⟨_, _⟩ := c
  rw [Binding.mk.injEq]
  exact ⟨name, value⟩

/-- The text of a value tells the value and where it ends. -/
theorem Value.readsOff {v : Value Numeral} (hv : v.Spelled .graphQL) :
    ReadsOff Value.text (Value.Spelled .graphQL) (Stops isWordChar) v := by
  -- the leads of both values agree, which leaves one constructor for the other value, or the words
  induction v using Value.induction with
  | var name =>
    intro w r s hw hr hs h
    have lead := Value.lead_eq hv hw h
    cases w with
    | «variable» other =>
      simp only [Value.text, variableText, List.cons_append, List.cons.injEq, true_and] at h
      obtain ⟨rfl, rest⟩ := name_append_inj hv hw hr hs h
      exact ⟨rfl, rest⟩
    | _ => cases lead
  | string content =>
    intro w r s hw hr hs h
    have lead := Value.lead_eq hv hw h
    cases w with
    | string other =>
      obtain ⟨eq, rest⟩ := Text.Quoting.quote_append_inj stringLiteral_plain h
      exact ⟨congrArg _ (String.toList_inj.1 eq), rest⟩
    | _ => cases lead
  | number n =>
    intro w r s hw hr hs h
    have lead := Value.lead_eq hv hw h
    cases w with
    | number m =>
      obtain ⟨rfl, rest⟩ := numeral_append_inj hv hw hr hs h
      exact ⟨rfl, rest⟩
    | _ => cases lead
  | list items ih =>
    intro w r s hw hr hs h
    have lead := Value.lead_eq hv hw h
    cases w with
    | list others =>
      rw [Value.Spelled, Value.itemsSpelled_iff] at hv hw
      simp only [Value.text, Value.texts_eq_map, List.cons_append, List.append_assoc, List.cons.injEq, true_and] at h
      have sp : Spacing Value.text (Value.Spelled .graphQL) (Stops isWordChar) ([']'] <+: ·) :=
        spacing_of_close (by decide) (by decide)
      obtain ⟨rfl, rest⟩ := sp.spaced_append_inj (fun v r hv => Value.not_prefix_text hv (by decide) r)
        (fun v mem => ⟨hv v mem, ih v mem (hv v mem)⟩) hw (List.prefix_append _ _) (List.prefix_append _ _) h
      exact ⟨rfl, (List.cons.inj rest).2⟩
    | _ => cases lead
  | object fields ih =>
    intro w r s hw hr hs h
    have lead := Value.lead_eq hv hw h
    cases w with
    | object others =>
      rw [Value.Spelled, Value.fieldsSpelled_iff] at hv hw
      simp only [Value.text, Value.fieldTexts_eq_map, List.cons_append, List.append_assoc, List.cons.injEq,
        true_and] at h
      have sp : Spacing Binding.text (Binding.Spelled .graphQL) (Stops isWordChar) (['\x7d'] <+: ·) :=
        spacing_of_close (by decide) (by decide)
      have reads (b : Binding (Value Numeral)) (mem : b ∈ fields) := Binding.readsOff (hv b mem) (ih b mem (hv b mem).2)
      obtain ⟨rfl, rest⟩ := sp.spaced_append_inj (fun b r hb => Binding.not_prefix_text hb (by decide) r)
        (fun b mem => ⟨hv b mem, reads b mem⟩) hw (List.prefix_append _ _) (List.prefix_append _ _) h
      exact ⟨rfl, (List.cons.inj rest).2⟩
    | _ => cases lead
  | boolean b =>
    intro w r s hw hr hs h
    exact Value.word_append_inj hv hw rfl (Value.lead_eq hv hw h).symm hr hs h
  | enum name =>
    intro w r s hw hr hs h
    exact Value.word_append_inj hv hw rfl (Value.lead_eq hv hw h).symm hr hs h
  | null =>
    intro w r s hw hr hs h
    exact Value.word_append_inj hv hw rfl (Value.lead_eq hv hw h).symm hr hs h

/-! ### Arguments -/

theorem arguments_append_inj {as bs : List (Argument Numeral)} {r s : List Char}
    (has : ∀ a ∈ as, a.Spelled .graphQL) (hbs : ∀ b ∈ bs, b.Spelled .graphQL) (hr : Stops (· = '(') r)
    (hs : Stops (· = '(') s) (h : argumentsText as ++ r = argumentsText bs ++ s) : as = bs ∧ r = s := by
  have sp : Spacing Binding.text (Binding.Spelled .graphQL) (Stops isWordChar) ([')'] <+: ·) :=
    spacing_of_close (by decide) (by decide)
  simp only [argumentsText, parenthesized_eq_enclosed] at h
  refine sp.enclosed_append_inj (fun b r hb => Binding.not_prefix_text hb (by decide) r)
    (fun a ha => ⟨has a ha, ?_⟩) hbs hr hs h
  exact Binding.readsOff (has a ha) (Value.readsOff (has a ha).2)

/-- Arguments leave a text that begins with a parenthesis or as what follows them does. -/
theorem stops_arguments {p : Char → Bool} (hp : p '(' = false) (arguments : List (Argument Numeral)) {r : List Char}
    (hr : Stops p r) : Stops p (argumentsText arguments ++ r) := by
  rw [argumentsText, parenthesized_eq_enclosed]
  exact stops_enclosed hp _ _ _ hr

/-! ### Directives -/

/-- The characters that would carry on a word, or open the arguments behind it. -/
def isWordOrOpening (c : Char) : Bool := isWordChar c || c = '('

theorem stops_word_of_stops {r : List Char} (h : Stops isWordOrOpening r) : Stops isWordChar r :=
  h.mono fun c hc => by simp [isWordOrOpening, hc]

theorem stops_opening_of_stops {r : List Char} (h : Stops isWordOrOpening r) : Stops (· = '(') r :=
  h.mono fun c hc => by simpa [isWordOrOpening] using Or.inr (by simpa using hc)

private theorem Directive.readsOff {d : Directive Numeral} (hd : d.Spelled .graphQL) :
    ReadsOff Directive.text (Directive.Spelled .graphQL) (Stops isWordOrOpening) d := by
  intro e r s he hr hs h
  simp only [Directive.text, List.cons_append, List.append_assoc, List.cons.injEq, true_and] at h
  have ends {as : List (Argument Numeral)} {t : List Char} (ht : Stops isWordOrOpening t) :
      Stops isWordChar (argumentsText as ++ t) := stops_arguments (by decide) as (stops_word_of_stops ht)
  obtain ⟨name, rest⟩ := name_append_inj hd.1 he.1 (ends hr) (ends hs) h
  obtain ⟨arguments, rest⟩ :=
    arguments_append_inj hd.2 he.2 (stops_opening_of_stops hr) (stops_opening_of_stops hs) rest
  refine ⟨?_, rest⟩
  obtain ⟨_, _⟩ := d
  obtain ⟨_, _⟩ := e
  rw [Directive.mk.injEq]
  exact ⟨name, arguments⟩

/-- What may follow a list of directives: it does not carry on the last one and is not another one. -/
def EndsDirectives (r : List Char) : Prop := Stops isWordOrOpening r ∧ ∀ t, r = ' ' :: t → Stops (· = '@') t

theorem directives_append_inj {ds es : List (Directive Numeral)} {r s : List Char}
    (hds : ∀ d ∈ ds, d.Spelled .graphQL) (hes : ∀ e ∈ es, e.Spelled .graphQL) (hr : EndsDirectives r)
    (hs : EndsDirectives s) (h : directivesText ds ++ r = directivesText es ++ s) : ds = es ∧ r = s := by
  have sp : Spacing Directive.text (Directive.Spelled .graphQL) (Stops isWordOrOpening) EndsDirectives := by
    refine ⟨fun d r _ => ?_, fun r hr => hr.1, fun d r _ hr => ?_⟩
    · rw [List.cons_append, stops_cons]
      decide
    · have := hr.2 (d.text ++ r) rfl
      simp [Directive.text] at this
  exact sp.flatMap_append_inj (fun d hd => ⟨hds d hd, Directive.readsOff (hds d hd)⟩) hes hr hs h

/-- Directives leave a text that begins with a space or as what follows them does. -/
theorem stops_directives {p : Char → Bool} (hp : p ' ' = false) (directives : List (Directive Numeral))
    {r : List Char} (hr : Stops p r) : Stops p (directivesText directives ++ r) := by
  cases directives with
  | nil => exact hr
  | cons d ds => simpa [directivesText] using hp

end PersistedQuery
