import LayerLint.Pattern.Outcomes

/-! # Searching a text for a pattern

A text is read from the left, and at each place the first way in which the pattern matches is
taken. The search goes on behind the end of a match, so that matches never overlap; word
boundaries are still judged by what really precedes a place.
-/

namespace LayerLint.Pattern

open Text (Cursor Span)

/-- A match: the piece of text, and the pieces remembered inside it. -/
structure Match where
  whole : Span
  captures : Captures

namespace Match

/-- The piece remembered under a name. -/
def get? (found : Match) (name : String) : Option Span :=
  found.captures.lookup name

/-- The text remembered under a name, or the empty text. -/
def text (found : Match) (name : String) : String :=
  ((found.get? name).map Span.text).getD ""

end Match

/-- The places of a text, each with the match that begins there, if there is one. -/
def candidates (pattern : Pattern) (text : List Char) : List (Cursor × Option Match) :=
  let places := Cursor.places text
  places.zip <| (pattern.ends places).map (fun start found => ⟨⟨start, found.2⟩, found.1⟩) places

/-- The matches that begin no earlier than at the offset `free`, none overlapping another. -/
def pick (free : Nat) : List (Cursor × Option Match) → List Match
  | [] => []
  | (place, some found) :: rest =>
      if free ≤ place.offset then found :: pick found.whole.stop.offset rest else pick free rest
  | (_, none) :: rest => pick free rest

/-- All matches in a text, from the left, none overlapping another. -/
def findAll (pattern : Pattern) (text : List Char) : List Match :=
  pick 0 (pattern.candidates text)

/-- The first match in a text. -/
def find? (pattern : Pattern) (text : List Char) : Option Match :=
  (pattern.findAll text).head?

/-- The whole text as one match, if the pattern describes all of it. -/
def whole? (pattern : Pattern) (text : List Char) : Option Match :=
  ((andThen pattern finish).candidates text).head?.bind Prod.snd

/-- Whether the pattern describes the whole text. -/
def describes (pattern : Pattern) (text : List Char) : Bool :=
  (pattern.whole? text).isSome

/-- The characters from the offset `free` on, with a blank in place of every match. -/
def blankOutFrom (free : Nat) : List (Cursor × Option Match) → List Char
  | [] => []
  | (place, found) :: rest =>
      if place.offset < free then blankOutFrom free rest
      else match found with
        | some found => ' ' :: blankOutFrom found.whole.stop.offset rest
        | none => place.rest.take 1 ++ blankOutFrom free rest

/-- The text with every match of a pattern replaced by one blank. -/
def blankOut (pattern : Pattern) (text : List Char) : List Char :=
  blankOutFrom 0 (pattern.candidates text)

end LayerLint.Pattern
