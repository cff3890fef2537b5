import LayerLint.Text.Offset
import LayerLint.Text.WordChar

/-! # Places in a text

A cursor is a place between two characters of a text, seen from inside: it knows what precedes it
and all that follows it. A span is the piece of text between two places.
-/

namespace LayerLint.Text

/-- A place in a text. -/
structure Cursor where
  /-- The character before the place. -/
  before : Option Char
  /-- The number of bytes before the place. -/
  offset : Nat
  /-- The text after the place. -/
  rest : List Char
  deriving Repr, DecidableEq

namespace Cursor

/-- The beginning of a text. -/
def start (text : List Char) : Cursor := ⟨none, 0, text⟩

/-- The place after one more character, which was the first of the text that follows. -/
def past (cursor : Cursor) (c : Char) (rest : List Char) : Cursor :=
  ⟨some c, cursor.offset + c.utf8Size, rest⟩

/-- Whether a character for which `ok` holds follows. -/
def precedes (ok : Char → Bool) (cursor : Cursor) : Bool :=
  cursor.rest.head?.any ok

/-- Whether nothing follows. -/
def isAtEnd (cursor : Cursor) : Bool :=
  cursor.rest.isEmpty

/-- Whether exactly one side of the place is a word character. -/
def isAtWordBoundary (cursor : Cursor) : Bool :=
  cursor.before.any isWordChar != cursor.precedes isWordChar

/-- The places of a text from one with the given neighbour and offset on; the last one is the end
of the text. -/
def placesFrom (before : Option Char) (offset : Nat) : List Char → List Cursor
  | [] => [⟨before, offset, []⟩]
  | c :: rest => ⟨before, offset, c :: rest⟩ :: placesFrom (some c) (offset + c.utf8Size) rest

/-- All places of a text, from its beginning to its end. -/
def places (text : List Char) : List Cursor :=
  placesFrom none 0 text

/-- There is one place more than there are characters. -/
theorem length_placesFrom (before : Option Char) (offset : Nat) (text : List Char) :
    (placesFrom before offset text).length = text.length + 1 := by
  induction text generalizing before offset with
  | nil => rfl
  | cons c rest ih => rw [placesFrom, List.length_cons, ih, List.length_cons]

end Cursor

/-- A piece of a text. -/
structure Span where
  start : Cursor
  stop : Cursor

namespace Span

/-- The characters of the piece. -/
def chars (span : Span) : List Char :=
  prefixWithin (span.stop.offset - span.start.offset) span.start.rest

/-- The piece as a text. -/
def text (span : Span) : String :=
  String.ofList span.chars

end Span

end LayerLint.Text
