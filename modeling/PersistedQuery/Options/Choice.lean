import PersistedQuery.Options.Fault
import PersistedQuery.Typename

/-!
# Choices

An option with a few named variants is read from the name of a variant, or from an object whose only key is that name
and whose value is `null`.

* `Choice.read_eq_ok_iff`: no other value gives a variant.
-/

namespace PersistedQuery

/-- The variants of an option by name. -/
structure Choice (α : Type) where
  variants : List (String × α)

namespace Choice

variable {α : Type}

def named (choice : Choice α) (name : String) : Except Fault α :=
  match choice.variants.lookup name with
  | some a => pure a
  | none => throw (.unknownVariant name (choice.variants.map (·.1)))

def read (choice : Choice α) : Json → Except Fault α
  | .string name => choice.named name
  | .object [⟨name, payload⟩] => do
    let a ← choice.named name
    if payload = .null then pure a else throw (.wrongType payload .nothing)
  | .object _ => throw .notSingleKey
  | v => throw (.wrongType v .variant)

private theorem named_eq_ok_iff {choice : Choice α} {name : String} {a : α} :
    choice.named name = .ok a ↔ choice.variants.lookup name = some a := by
  unfold named
  cases choice.variants.lookup name <;> simp [pure, Except.pure, throw, throwThe, MonadExceptOf.throw]

theorem read_eq_ok_iff {choice : Choice α} {v : Json} {a : α} :
    choice.read v = .ok a ↔
      ∃ name, choice.variants.lookup name = some a ∧ (v = .string name ∨ v = .object [⟨name, .null⟩]) := by
  simp only [← named_eq_ok_iff]
  constructor
  · intro h
    unfold read at h
    split at h
    · exact ⟨_, h, .inl rfl⟩
    · rename_i name payload
      cases found : choice.named name with
      | error f =>
        rw [found] at h
        cases h
      | ok b =>
        rw [found] at h
        by_cases empty : payload = .null
        · subst empty
          cases h
          exact ⟨name, found, .inr rfl⟩
        · change (if payload = .null then pure b else throw _) = _ at h
          rw [if_neg empty] at h
          cases h
    · cases h
    · cases h
  · rintro ⟨name, found, rfl | rfl⟩
    · exact found
    · change choice.named name >>= _ = _
      rw [found]
      rfl

end Choice

def OutputFormat.choice : Choice OutputFormat := ⟨[("jsonLines", .jsonLines), ("object", .object)]⟩

def TypenamePolicy.choice : Choice TypenamePolicy := ⟨[("all", .all), ("exceptRoot", .exceptRoot)]⟩

/-- A value of an option, where the order of the members of objects does not matter. -/
def Choice.ofJson {α : Type} (choice : Choice α) (v : Json) : Except Error α :=
  (choice.read v.ordered).mapError fun fault => { message := fault.message, stage := .serialize }

end PersistedQuery
