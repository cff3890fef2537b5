import LayerLint.Text.Blank

/-! # JSON with comments

Compiler settings are written in JSON with line comments, block comments and a comma that may
stand behind the last item of a container. Taking these away leaves JSON; what is inside a string
is never touched. A text is read one character at a time, with one character of foresight.
-/

namespace LayerLint.Json

/-- What kind of text the next character belongs to. -/
inductive Stretch where
  | plain
  | string
  /-- The character after a backslash in a string. -/
  | escape
  | lineComment
  /-- The star of the two characters that open a block comment. -/
  | blockOpen
  | blockComment
  /-- The slash of the two characters that close a block comment. -/
  | blockClose
  deriving Repr, DecidableEq

namespace Stretch

/-- Whether a character opens a comment, given the character that follows it. -/
def opensComment (c : Char) (following : Option Char) : Bool :=
  c == '/' && (following == some '/' || following == some '*')

/-- The stretch after a character, given the character that follows it. A line feed ends a line
comment and is itself plain. -/
def next : Stretch → Char → Option Char → Stretch
  | plain, c, following =>
      if opensComment c following then
        if following = some '*' then blockOpen else lineComment
      else if c = '"' then string
      else plain
  | string, c, _ => if c = '\\' then escape else if c = '"' then plain else string
  | escape, _, _ => string
  | lineComment, c, _ => if c = '\n' then plain else lineComment
  | blockOpen, _, _ => blockComment
  | blockComment, c, following =>
      if c = '*' ∧ following = some '/' then blockClose else blockComment
  | blockClose, _, _ => plain

end Stretch

/-- The first character that is neither blank nor in a comment. -/
def significant? : Stretch → List Char → Option Char
  | _, [] => none
  | .plain, c :: rest =>
      if Text.isBlank c || Stretch.opensComment c rest.head? then
        significant? (Stretch.plain.next c rest.head?) rest
      else some c
  | stretch, c :: rest => significant? (stretch.next c rest.head?) rest

/-- Whether a comma before this text stands behind the last item of a container. -/
def closesNext (rest : List Char) : Bool :=
  match significant? .plain rest with
  | some c => c == '\x7d' || c == ']'
  | none => false

/-- Whether a character stays. -/
def staysIn : Stretch → Char → List Char → Bool
  | .plain, c, rest =>
      !Stretch.opensComment c rest.head? && !(c == ',' && closesNext rest)
  | .string, _, _ => true
  | .escape, _, _ => true
  | .lineComment, c, _ => c == '\n'
  | _, _, _ => false

/-- What stays of a text that begins in the given stretch. -/
def stripFrom : Stretch → List Char → List Char
  | _, [] => []
  | stretch, c :: rest =>
      let kept := stripFrom (stretch.next c rest.head?) rest
      if staysIn stretch c rest then c :: kept else kept

/-- The text without comments and without commas behind last items. -/
def stripComments (text : String) : String :=
  String.ofList (stripFrom .plain text.toList)

end LayerLint.Json
