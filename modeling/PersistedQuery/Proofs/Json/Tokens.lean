import PersistedQuery.Proofs.Tree

/-!
# Tokens of JSON values

A JSON text is a sequence of tokens: brackets, commas, colons, and the scalars between them.  Blanks and the spelling of
a scalar are no part of it.  A value is written with one sequence of tokens, and this tells the value and where it ends
(`Json.tokens_append_inj`).
-/

namespace PersistedQuery.Json

inductive Token where
  | openArray
  | closeArray
  | openObject
  | closeObject
  | colon
  | comma
  | scalar (v : Json)

mutual

/-- The tokens of a value. -/
def tokens : Json → List Token
  | .array items => .openArray :: [.comma].intercalate (itemTokens items) ++ [.closeArray]
  | .object members => .openObject :: [.comma].intercalate (memberTokens members) ++ [.closeObject]
  | v => [.scalar v]

/-- The tokens of the items of an array. -/
def itemTokens : List Json → List (List Token)
  | [] => []
  | v :: vs => v.tokens :: itemTokens vs

/-- The tokens of the members of an object. -/
def memberTokens : List (Binding Json) → List (List Token)
  | [] => []
  | b :: bs => (.scalar (.string b.name) :: .colon :: b.value.tokens) :: memberTokens bs

end

theorem itemTokens_eq_map (vs : List Json) : itemTokens vs = vs.map tokens := by
  induction vs with
  | nil => rfl
  | cons v vs ih => simp [itemTokens, ih]

theorem memberTokens_eq_map (bs : List (Binding Json)) :
    memberTokens bs = bs.map fun b => .scalar (.string b.name) :: .colon :: b.value.tokens := by
  induction bs with
  | nil => rfl
  | cons b bs ih => simp [memberTokens, ih]

/-! ### Telling values apart -/

section

variable {α : Type} {part : α → List Token} {close : Token} {as bs : List α} {r s : List Token}

private theorem intercalate_cons (a : α) (as : List α) :
    [.comma].intercalate ((a :: as).map part) = part a ++ as.flatMap fun a => .comma :: part a := by
  induction as generalizing a with
  | nil => simp
  | cons b as ih => simp [List.intercalate_cons_cons, ← ih]

/-- Parts in front of each of which a comma stands. -/
private theorem flatMap_append_inj (hc : close ≠ .comma)
    (h : (as.flatMap fun a => .comma :: part a) ++ close :: r = (bs.flatMap fun b => .comma :: part b) ++ close :: s)
    (each : ∀ a ∈ as, ∀ b r s, part a ++ r = part b ++ s → a = b ∧ r = s) : as = bs ∧ r = s := by
  induction as generalizing bs with
  | nil =>
    cases bs with
    | nil => simpa using h
    | cons b bs => simp [hc] at h
  | cons a as ih =>
    cases bs with
    | nil => simp [hc.symm] at h
    | cons b bs =>
      rw [List.forall_mem_cons] at each
      simp only [List.flatMap_cons, List.cons_append, List.append_assoc, List.cons.injEq, true_and] at h
      obtain ⟨rfl, tails⟩ := each.1 b _ _ h
      obtain ⟨rfl, rfl⟩ := ih tails each.2
      exact ⟨rfl, rfl⟩

/-- Parts between which commas stand. -/
private theorem intercalate_append_inj (hc : close ≠ .comma) (first : ∀ a, ∃ t ts, part a = t :: ts ∧ t ≠ close)
    (h : [.comma].intercalate (as.map part) ++ close :: r = [.comma].intercalate (bs.map part) ++ close :: s)
    (each : ∀ a ∈ as, ∀ b r s, part a ++ r = part b ++ s → a = b ∧ r = s) : as = bs ∧ r = s := by
  cases as with
  | nil =>
    cases bs with
    | nil => simpa using h
    | cons b bs =>
      obtain ⟨t, ts, eq, ne⟩ := first b
      simp [eq, ne.symm] at h
  | cons a as =>
    cases bs with
    | nil =>
      obtain ⟨t, ts, eq, ne⟩ := first a
      simp [eq, ne] at h
    | cons b bs =>
      -- with one more comma in front, a comma stands in front of each part
      rw [intercalate_cons, intercalate_cons] at h
      exact flatMap_append_inj hc (by simpa using h) each

end

/-- A value does not begin with a closing bracket. -/
private theorem tokens_cons (v : Json) : ∃ t ts, v.tokens = t :: ts ∧ t ≠ .closeArray := by
  cases v <;> exact ⟨_, _, rfl, by simp⟩

/-- The tokens of a value tell the value and where it ends. -/
theorem tokens_append_inj (v w : Json) {r s : List Token} (h : v.tokens ++ r = w.tokens ++ s) : v = w ∧ r = s := by
  induction v using Json.induction generalizing w r s with
  | array items ih =>
    cases w with
    | array items' =>
      simp only [tokens, itemTokens_eq_map, List.cons_append, List.append_assoc, List.cons.injEq, true_and] at h
      obtain ⟨rfl, rest⟩ := intercalate_append_inj (by simp) tokens_cons h fun v hv w _ _ => ih v hv w
      exact ⟨rfl, rest⟩
    | _ => simp [tokens] at h
  | object members ih =>
    cases w with
    | object members' =>
      simp only [tokens, memberTokens_eq_map, List.cons_append, List.append_assoc, List.cons.injEq, true_and] at h
      refine (intercalate_append_inj (by simp) (fun b => ⟨_, _, rfl, by simp⟩) h ?_).imp_left (congrArg _)
      intro a ha b r s h
      simp only [List.cons_append, List.cons.injEq, Token.scalar.injEq, Json.string.injEq, true_and] at h
      obtain ⟨value, rest⟩ := ih a ha b.value h.2
      cases a
      cases b
      simp_all
    | _ => simp [tokens] at h
  | _ => cases w <;> simp_all [tokens]

end PersistedQuery.Json
