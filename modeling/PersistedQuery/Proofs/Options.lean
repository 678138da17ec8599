import PersistedQuery.Options.Config
import PersistedQuery.Proofs.Maps

/-!
# Options as they are given

An option is given by the name of a variant, or by an object with that name as its only key and `null` as its value
(`Json.Names`).  `Config.Given` says which JSON values give a configuration, and which one: `null`, an object, of which
only two members matter, or an array of at most two items.

* `Config.ofJson_given`: these values are read and no others, and what an error tells where a value is not read.
-/

namespace PersistedQuery

/-! ### Variants -/

def OutputFormat.name : OutputFormat → String
  | .jsonLines => "jsonLines"
  | .object => "object"

def TypenamePolicy.name : TypenamePolicy → String
  | .all => "all"
  | .exceptRoot => "exceptRoot"

/-- The value is this name, or an object with this name as its only key and `null` as its value. -/
def Json.Names (v : Json) (name : String) : Prop :=
  v = .string name ∨
    ∃ members, v = .object members ∧
      ∀ key, Binding.getLast? members key = if key = name then some .null else none

theorem Json.orderedItems_eq_map (vs : List Json) : orderedItems vs = vs.map ordered := by
  induction vs with
  | nil => rfl
  | cons v vs ih => simp [orderedItems, ih]

theorem Json.orderedMembers_eq_map (bs : List (Binding Json)) : orderedMembers bs = bs.map (Binding.map ordered) := by
  induction bs with
  | nil => rfl
  | cons b bs ih => simp [orderedMembers, ih, Binding.map]

theorem Json.ordered_eq_null_iff (v : Json) : v.ordered = .null ↔ v = .null := by
  cases v <;> simp [ordered]

theorem Json.ordered_eq_string_iff (v : Json) (s : String) : v.ordered = .string s ↔ v = .string s := by
  cases v <;> simp [ordered]

/-- The ordered form of an object has one member exactly if the object has one key. -/
private theorem Json.orderedMembers_eq_singleton_iff (members : List (Binding Json)) (name : String) :
    Binding.byName (orderedMembers members) = [⟨name, .null⟩] ↔
      ∀ key, Binding.getLast? members key = if key = name then some .null else none := by
  have single : ([⟨name, .null⟩] : List (Binding Json)) = Binding.byName [⟨name, .null⟩] := rfl
  rw [single, Binding.byName_eq_iff, Json.orderedMembers_eq_map]
  refine forall_congr' fun key => ?_
  have value : Binding.getLast? [(⟨name, .null⟩ : Binding Json)] key = if key = name then some .null else none := by
    by_cases same : name = key
    · simp [Binding.getLast?, Binding.get?, same]
    · simp [Binding.getLast?, Binding.get?, same, Ne.symm same]
  rw [Binding.getLast?_map, value]
  by_cases same : key = name
  · simp [same, Json.ordered_eq_null_iff]
  · simp [same]

theorem Json.names_iff (v : Json) (name : String) :
    v.Names name ↔ v.ordered = .string name ∨ v.ordered = .object [⟨name, .null⟩] := by
  rw [Json.Names, Json.ordered_eq_string_iff]
  refine or_congr_right ?_
  cases v with
  | object members => simp [ordered, Json.orderedMembers_eq_singleton_iff]
  | null | bool b | int n | float x | string s | array items => simp [ordered]

namespace Choice

variable {α : Type}

/-- A value is read as the variant that it names. -/
def Reads (choice : Choice α) (name : α → String) : Prop :=
  ∀ (v : Json) (a : α), choice.read v.ordered = .ok a ↔ v.Names (name a)

theorem reads_of_lookup {choice : Choice α} {name : α → String}
    (h : ∀ key a, choice.variants.lookup key = some a ↔ key = name a) : choice.Reads name := by
  intro v a
  rw [Choice.read_eq_ok_iff, Json.names_iff]
  simp only [h, exists_eq_left]

theorem ofJson_eq_ok_iff {choice : Choice α} {name : α → String} (h : choice.Reads name) (v : Json) (a : α) :
    choice.ofJson v = .ok a ↔ v.Names (name a) := by
  rw [← h v a, ofJson]
  cases choice.read v.ordered <;> simp [Except.mapError]

theorem exists_fault_of_ofJson {choice : Choice α} {v : Json} {e : Error} (h : choice.ofJson v = .error e) :
    ∃ fault, choice.read v.ordered = .error fault ∧ e.message = fault.message := by
  rw [ofJson] at h
  cases outcome : choice.read v.ordered with
  | ok a =>
    rw [outcome] at h
    cases h
  | error fault =>
    rw [outcome] at h
    cases h
    exact ⟨fault, rfl, rfl⟩

end Choice

theorem OutputFormat.reads_choice : OutputFormat.choice.Reads OutputFormat.name := by
  apply Choice.reads_of_lookup
  intro key format
  simp only [OutputFormat.choice, List.lookup_cons, List.lookup_nil]
  cases format <;> grind [OutputFormat.name]

theorem TypenamePolicy.reads_choice : TypenamePolicy.choice.Reads TypenamePolicy.name := by
  apply Choice.reads_of_lookup
  intro key policy
  simp only [TypenamePolicy.choice, List.lookup_cons, List.lookup_nil]
  cases policy <;> grind [TypenamePolicy.name]

/-! ### Configurations -/

/-- The value that is given for an option, if there is one, sets it to a variant.  Otherwise it has its standard
value. -/
inductive Json.Sets {α : Type} (name : α → String) (standard : α) : Option Json → α → Prop
  | missing : Sets name standard none standard
  | given {v : Json} {a : α} (names : v.Names (name a)) : Sets name standard (some v) a

/-- A value gives a configuration. -/
inductive Config.Given : Json → Config → Prop
  | null : Given .null ⟨.jsonLines, .exceptRoot⟩
  | object {members : List (Binding Json)} {c : Config}
    (output : Json.Sets OutputFormat.name .jsonLines (Binding.getLast? members "output") c.output)
    (typenamePolicy :
      Json.Sets TypenamePolicy.name .exceptRoot (Binding.getLast? members "typenamePolicy") c.typenamePolicy) :
    Given (.object members) c
  | array {items : List Json} {c : Config} (short : items.length ≤ 2)
    (output : Json.Sets OutputFormat.name .jsonLines items[0]? c.output)
    (typenamePolicy : Json.Sets TypenamePolicy.name .exceptRoot items[1]? c.typenamePolicy) :
    Given (.array items) c

namespace Choice

variable {α : Type} [Inhabited α] (choice : Choice α)

/-- What is read of the value that is given for an option, if there is one. -/
def readGiven : Option Json → Except Fault α
  | some v => choice.read v.ordered
  | none => pure default

theorem readGiven_eq_ok_iff {choice : Choice α} {name : α → String} (h : choice.Reads name) (given : Option Json)
    (a : α) : choice.readGiven given = .ok a ↔ Json.Sets name default given a := by
  cases given with
  | none =>
    constructor
    · rintro ⟨⟩
      exact .missing
    · rintro ⟨⟩
      rfl
  | some v =>
    rw [readGiven, h v a]
    constructor
    · exact .given
    · rintro ⟨⟩
      assumption

end Choice

namespace Config

variable {α : Type} [Inhabited α]

theorem member_ordered (choice : Choice α) (members : List (Binding Json)) (name : String) :
    member choice (Binding.byName (Json.orderedMembers members)) name =
      choice.readGiven (Binding.getLast? members name) := by
  rw [member, Binding.get?_byName, Json.orderedMembers_eq_map, Binding.getLast?_map]
  cases Binding.getLast? members name <;> rfl

theorem item_ordered (choice : Choice α) (items : List Json) :
    item choice (Json.orderedItems items) = choice.readGiven items[0]? := by
  cases items <;> rfl

/-- The options of an object, the output first. -/
theorem read_object (members : List (Binding Json)) :
    read (Json.object members).ordered = (do
      let output ← OutputFormat.choice.readGiven (Binding.getLast? members "output")
      let typenamePolicy ← TypenamePolicy.choice.readGiven (Binding.getLast? members "typenamePolicy")
      return { output, typenamePolicy }) := by
  rw [Json.ordered, read, member_ordered, member_ordered]

/-- The options of an array, the output first. -/
theorem read_array (items : List Json) :
    read (Json.array items).ordered = (do
      let output ← OutputFormat.choice.readGiven items[0]?
      let typenamePolicy ← TypenamePolicy.choice.readGiven items[1]?
      if items.length ≤ 2 then return { output, typenamePolicy } else throw (.tooManyItems items.length)) := by
  have tail : (Json.orderedItems items).tail = Json.orderedItems items.tail := by cases items <;> rfl
  have length : (Json.orderedItems items).length = items.length := by simp [Json.orderedItems_eq_map]
  rw [Json.ordered, read, tail, item_ordered, item_ordered, length, List.getElem?_tail]

theorem read_eq_ok_iff {v : Json} (nonNull : v ≠ .null) (c : Config) : read v.ordered = .ok c ↔ Given v c := by
  have output := Choice.readGiven_eq_ok_iff OutputFormat.reads_choice
  have policy := Choice.readGiven_eq_ok_iff TypenamePolicy.reads_choice
  cases v with
  | object members =>
    rw [read_object, bind_eq_ok_iff]
    constructor
    · rintro ⟨format, hf, rest⟩
      obtain ⟨p, hp, rfl⟩ := map_eq_ok_iff.1 rest
      exact .object ((output ..).1 hf) ((policy ..).1 hp)
    · rintro (_ | ⟨hf, hp⟩)
      exact ⟨_, (output ..).2 hf, map_eq_ok_iff.2 ⟨_, (policy ..).2 hp, rfl⟩⟩
  | array items =>
    rw [read_array, bind_eq_ok_iff]
    constructor
    · rintro ⟨format, hf, rest⟩
      obtain ⟨p, hp, rest⟩ := bind_eq_ok_iff.1 rest
      split at rest
      · rename_i short
        cases rest
        exact .array short ((output ..).1 hf) ((policy ..).1 hp)
      · cases rest
    · rintro (_ | _ | ⟨short, hf, hp⟩)
      refine ⟨_, (output ..).2 hf, bind_eq_ok_iff.2 ⟨_, (policy ..).2 hp, ?_⟩⟩
      rw [if_pos short]
      rfl
  | null => exact absurd rfl nonNull
  | bool b | int n | float x | string s =>
    constructor
    · rintro ⟨⟩
    · rintro ⟨⟩

/-- The error of a value that is not read. -/
def faultError (v : Json) (fault : Fault) : Error where
  message := fault.message
  context := some (String.ofList v.ordered.text)
  stage := .config

theorem ofJson_of_ne_null {v : Json} (nonNull : v ≠ .null) :
    ofJson v = (read v.ordered).mapError (faultError v) := by
  rw [ofJson, if_neg nonNull]
  rfl

theorem ofJson_eq_ok_iff (v : Json) (c : Config) : ofJson v = .ok c ↔ Given v c := by
  by_cases null : v = .null
  · subst null
    constructor
    · rintro ⟨⟩
      exact .null
    · rintro ⟨⟩
      rfl
  · rw [← read_eq_ok_iff null, ofJson_of_ne_null null]
    cases read v.ordered <;> simp [Except.mapError]

theorem ofJson_eq_error {v : Json} {e : Error} (h : ofJson v = .error e) :
    e.stage = .config ∧ e.context = some (String.ofList v.ordered.text) := by
  by_cases null : v = .null
  · subst null
    cases h
  · rw [ofJson_of_ne_null null] at h
    cases outcome : read v.ordered with
    | ok c =>
      rw [outcome] at h
      cases h
    | error fault =>
      rw [outcome] at h
      cases h
      exact ⟨rfl, rfl⟩

theorem given_object_congr {members others : List (Binding Json)}
    (same : ∀ name, name = "output" ∨ name = "typenamePolicy" →
      Binding.getLast? members name = Binding.getLast? others name) {c : Config} (h : Given (.object members) c) :
    Given (.object others) c := by
  obtain _ | ⟨output, policy⟩ := h
  rw [same "output" (.inl rfl)] at output
  rw [same "typenamePolicy" (.inr rfl)] at policy
  exact .object output policy

/-- An object whose output is at fault is not read, whatever else it has. -/
theorem ofJson_of_output_fault {members : List (Binding Json)} {fault : Fault}
    (output : OutputFormat.choice.readGiven (Binding.getLast? members "output") = .error fault) :
    ofJson (.object members) = .error (faultError (.object members) fault) := by
  rw [ofJson_of_ne_null (by simp), read_object, output]
  rfl

/-- An object whose policy is at fault, but not its output, is not read either. -/
theorem ofJson_of_policy_fault {members : List (Binding Json)} {fault : Fault} {format : OutputFormat}
    (output : OutputFormat.choice.readGiven (Binding.getLast? members "output") = .ok format)
    (policy : TypenamePolicy.choice.readGiven (Binding.getLast? members "typenamePolicy") = .error fault) :
    ofJson (.object members) = .error (faultError (.object members) fault) := by
  rw [ofJson_of_ne_null (by simp), read_object, output, policy]
  rfl

/-- A variant is read from the values that name it.  A configuration is read exactly from `null`, from an object whose
members for the options, as far as it has them, name variants, and from an array of at most two items that do; what is
not given has its standard value, and other members do not matter.  Otherwise the error tells the stage, shows the whole
value, and has the message for the first option that is at fault, the output before the policy. -/
theorem ofJson_given (v : Json) :
    (∀ format, OutputFormat.choice.ofJson v = .ok format ↔ v.Names format.name) ∧
    (∀ policy, TypenamePolicy.choice.ofJson v = .ok policy ↔ v.Names policy.name) ∧
    (∀ c, ofJson v = .ok c ↔ Given v c) ∧
    (∀ members others, v = .object members →
      (∀ name, name = "output" ∨ name = "typenamePolicy" →
        Binding.getLast? members name = Binding.getLast? others name) →
      ∀ c, ofJson v = .ok c → ofJson (.object others) = .ok c) ∧
    (∀ e, ofJson v = .error e → e.stage = .config ∧ e.context = some (String.ofList v.ordered.text)) ∧
    ∀ members, v = .object members →
      (∀ output e, Binding.getLast? members "output" = some output → OutputFormat.choice.ofJson output = .error e →
        ∃ e', ofJson v = .error e' ∧ e'.message = e.message) ∧
      ∀ policy e format, Json.Sets OutputFormat.name .jsonLines (Binding.getLast? members "output") format →
        Binding.getLast? members "typenamePolicy" = some policy → TypenamePolicy.choice.ofJson policy = .error e →
          ∃ e', ofJson v = .error e' ∧ e'.message = e.message := by
  refine ⟨Choice.ofJson_eq_ok_iff OutputFormat.reads_choice v, Choice.ofJson_eq_ok_iff TypenamePolicy.reads_choice v,
    ofJson_eq_ok_iff v, ?_, fun e => ofJson_eq_error, ?_⟩
  · rintro members others rfl same c read
    rw [ofJson_eq_ok_iff] at read ⊢
    exact given_object_congr same read
  · rintro members rfl
    constructor
    · intro output e given fails
      obtain ⟨fault, read, message⟩ := Choice.exists_fault_of_ofJson fails
      have atFault : OutputFormat.choice.readGiven (Binding.getLast? members "output") = .error fault := by
        rw [given]
        exact read
      exact ⟨_, ofJson_of_output_fault atFault, message.symm⟩
    · intro policy e format output given fails
      obtain ⟨fault, read, message⟩ := Choice.exists_fault_of_ofJson fails
      have sets := (Choice.readGiven_eq_ok_iff OutputFormat.reads_choice _ format).2 output
      have atFault :
          TypenamePolicy.choice.readGiven (Binding.getLast? members "typenamePolicy") = .error fault := by
        rw [given]
        exact read
      exact ⟨_, ofJson_of_policy_fault sets atFault, message.symm⟩

/-- Both options of this object are at fault; the first member that is looked at decides. -/
theorem ofJson_given_bothAtFault :
    ∃ e, ofJson (.object [⟨"typenamePolicy", .null⟩, ⟨"output", .object [⟨"yaml", .int 1⟩]⟩, ⟨"a", .bool true⟩]) =
        .error e ∧
      e.message = "unknown variant `yaml`, expected `jsonLines` or `object`" ∧
      e.context = some "\x7b\"a\":true,\"output\":\x7b\"yaml\":1\x7d,\"typenamePolicy\":null\x7d" := by
  obtain ⟨-, -, -, -, shown, blamed⟩ := ofJson_given
    (.object [⟨"typenamePolicy", .null⟩, ⟨"output", .object [⟨"yaml", .int 1⟩]⟩, ⟨"a", .bool true⟩])
  obtain ⟨e, fails, message⟩ := (blamed _ rfl).1 (.object [⟨"yaml", .int 1⟩]) _ rfl rfl
  refine ⟨e, fails, message, ?_⟩
  rw [(shown e fails).2]
  rfl

end Config

end PersistedQuery
