import LayerLint.Text.Blank

/-! # Patterns

A pattern describes a piece of text: characters of a class, runs of such characters, sequences,
alternatives, and word boundaries. Where a pattern can match in more than one way the ways are
ordered: an earlier alternative before a later one, a longer run before a shorter one, or the other
way round for a run that is asked to be short. Matching yields the first way.
-/

namespace LayerLint

/-- The shape of a piece of text. -/
inductive Pattern where
  /-- The empty text. -/
  | empty
  /-- One character of a class. -/
  | one (ok : Char → Bool)
  /-- A run of characters of a class, as long as possible. -/
  | long (ok : Char → Bool)
  /-- A run of characters of a class, as short as possible. -/
  | short (ok : Char → Bool)
  /-- The empty text at a word boundary. -/
  | boundary
  /-- The empty text at the end of the whole text. -/
  | finish
  /-- One pattern after another. -/
  | andThen (first second : Pattern)
  /-- The first pattern, or else the second. -/
  | orElse (first second : Pattern)
  /-- A pattern whose piece of text is remembered under a name. -/
  | named (name : String) (body : Pattern)

namespace Pattern

/-- The patterns of a list, one after another. -/
def all (patterns : List Pattern) : Pattern :=
  patterns.foldr andThen empty

/-- The pattern, or else nothing. -/
def maybe (pattern : Pattern) : Pattern :=
  orElse pattern empty

/-- A given text. -/
def word (text : String) : Pattern :=
  all (text.toList.map fun c => one (· == c))

/-- At least one character of a class, as many as possible. -/
def longSome (ok : Char → Bool) : Pattern :=
  andThen (one ok) (long ok)

/-- Any number of blanks. -/
def blanks : Pattern := long Text.isBlank

/-- At least one blank. -/
def someBlanks : Pattern := longSome Text.isBlank

end Pattern

end LayerLint
