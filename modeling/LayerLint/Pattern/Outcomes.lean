import LayerLint.Pattern.Basic
import LayerLint.Text.Cursor

/-! # Matching at all places at once

What a pattern finds at a place depends on what comes after it only through the places where it may
end. So a pattern is tried at all places of a text at once: from the outcomes of what comes after
the pattern, one for each place, it makes the outcomes of itself and what comes after. A sequence
does this from its end to its beginning. Each pattern goes over the places once, whatever the text
is, and of the ways in which it can match at a place the first one that has an outcome is kept.
-/

namespace LayerLint

open Text (Cursor Span)

/-- The outcomes for the places of a text, from its beginning to its end; none where nothing is
found. -/
abbrev Outcomes (α : Type) := List (Option α)

namespace Outcomes

variable {α β : Type}

/-- For each place the outcome of the place after it. -/
def next (outcomes : Outcomes α) : Outcomes α :=
  outcomes.drop 1 ++ [none]

/-- The outcomes of the places for which `ok` holds. -/
def filter (ok : Cursor → Bool) (places : List Cursor) (outcomes : Outcomes α) : Outcomes α :=
  places.zipWith (fun place found => found.filter fun _ => ok place) outcomes

/-- The outcomes, each changed in view of its place. -/
def map (change : Cursor → α → β) (places : List Cursor) (outcomes : Outcomes α) : Outcomes β :=
  places.zipWith (fun place found => found.map (change place)) outcomes

/-- The first of two outcomes for each place. -/
def orElse (first second : Outcomes α) : Outcomes α :=
  first.zipWith Option.or second

/-- Goes over the places from the last one to the first. The outcome of a place is settled in view
of its old one and of the one that has been settled for the place after it. -/
def sweep (settle : Cursor → Option α → Option α → Option α) (places : List Cursor)
    (outcomes : Outcomes α) : Outcomes α :=
  (places.zip outcomes).foldr
    (fun entry later => settle entry.1 entry.2 later.head?.join :: later) []

/-- The outcomes with a run of characters before them that is as long as possible. -/
def long (ok : Char → Bool) : List Cursor → Outcomes α → Outcomes α :=
  sweep fun place here later => if place.precedes ok then later.or here else here

/-- The outcomes with a run of characters before them that is as short as possible. -/
def short (ok : Char → Bool) : List Cursor → Outcomes α → Outcomes α :=
  sweep fun place here later => here.or (if place.precedes ok then later else none)

end Outcomes

namespace Pattern

/-- The pieces that were remembered, in the order of the text. -/
abbrev Captures := List (String × Span)

/-- The outcomes of a pattern and what comes after it, from the outcomes of what comes after it. -/
def run : Pattern → {β : Type} → List Cursor → Outcomes (Captures × β) → Outcomes (Captures × β)
  | empty, _, _, outcomes => outcomes
  | one ok, _, places, outcomes => outcomes.next.filter (·.precedes ok) places
  | long ok, _, places, outcomes => outcomes.long ok places
  | short ok, _, places, outcomes => outcomes.short ok places
  | boundary, _, places, outcomes => outcomes.filter (·.isAtWordBoundary) places
  | finish, _, places, outcomes => outcomes.filter (·.isAtEnd) places
  | andThen first second, _, places, outcomes => first.run places (second.run places outcomes)
  | orElse first second, _, places, outcomes =>
      (first.run places outcomes).orElse (second.run places outcomes)
  | named name body, _, places, outcomes =>
      -- the end of the piece is handed to its beginning together with the outcome
      (body.run places (outcomes.map (fun stop found => (found.1, stop, found.2)) places)).map
        (fun start found => ((name, ⟨start, found.2.1⟩) :: found.1, found.2.2)) places

/-- The end of the first way in which a pattern matches at each place, with the pieces that it
remembers. -/
def ends (pattern : Pattern) (places : List Cursor) : Outcomes (Captures × Cursor) :=
  pattern.run places (places.map fun place => some ([], place))

end Pattern

end LayerLint
