import LayerLint.Text.Offset

/-! # Lines and columns

Findings are shown by line and column, both counted from one. A line ends with a line feed, and
columns count characters, not bytes.
-/

namespace LayerLint.Text

/-- A place in a text as it is shown to a reader. -/
structure Position where
  line : Nat
  column : Nat
  deriving Repr, DecidableEq

namespace Position

/-- The beginning of every text. -/
def start : Position := ⟨1, 1⟩

/-- The position after reading one more character. -/
def advance (position : Position) (c : Char) : Position :=
  if c = '\n' then ⟨position.line + 1, 1⟩ else ⟨position.line, position.column + 1⟩

/-- The position after reading as many whole characters as some number of bytes can hold. -/
def read (position : Position) (bytes : Nat) : List Char → Position
  | [] => position
  | c :: rest =>
      if c.utf8Size ≤ bytes then (position.advance c).read (bytes - c.utf8Size) rest else position

/-- The position of a byte offset. An offset inside a character stands for the beginning of that
character, and one beyond the text for its end. -/
def ofOffset (text : List Char) (offset : Nat) : Position :=
  start.read offset text

/-- Reading some bytes is reading the longest beginning of the text that they hold. -/
theorem read_eq_foldl (position : Position) (bytes : Nat) (text : List Char) :
    position.read bytes text = (prefixWithin bytes text).foldl advance position := by
  induction text generalizing position bytes with
  | nil => rfl
  | cons c rest ih =>
      rw [read, prefixWithin]
      split
      · rw [ih, List.foldl_cons]
      · rfl

end Position

end LayerLint.Text
