/-!
# Paths

Where a node stands below the node that a fold started at.
-/

namespace PersistedQuery

/-- One step down: to a definition or a selection by its position, or to the selection set of its owner. -/
inductive Segment where
  | index (i : Nat)
  | selectionSet
  deriving DecidableEq

/-- The steps from the starting node, the first one first. -/
structure Path where
  segments : List Segment := []
  deriving DecidableEq

def Segment.text : Segment → List Char
  | .index i => Nat.toDigits 10 i
  | .selectionSet => "selectionSet".toList

namespace Path

def push (p : Path) (s : Segment) : Path := ⟨p.segments ++ [s]⟩

/-- The path without its last step; the empty path stays. -/
def pop (p : Path) : Path := ⟨p.segments.dropLast⟩

def last? (p : Path) : Option Segment := p.segments.getLast?

/-- The number of selection sets entered. -/
def depth (p : Path) : Nat := p.segments.count .selectionSet

def text (p : Path) : List Char := ['.'].intercalate (p.segments.map Segment.text)

@[simp]
theorem pop_push (p : Path) (s : Segment) : (p.push s).pop = p := by simp [push, pop]

end Path

end PersistedQuery
