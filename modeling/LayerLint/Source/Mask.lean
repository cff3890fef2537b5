import LayerLint.Text.Offset

/-! # Seeing only the code of a source text

Comments and the insides of string and template literals are blanked out before a text is
searched, so that a keyword inside them is never taken for syntax. A blanked character becomes as
many spaces as it has bytes, and line breaks stay: offsets and lines in the masked text are those
of the source.

The text is read one character at a time, with one character of foresight, by a machine that
knows which *region* the next character belongs to. An interpolation inside a template is not
told apart from the rest of it: the next unescaped back-tick closes the template.
-/

namespace LayerLint.Source

/-- What kind of text the next character belongs to. -/
inductive Region where
  | code
  | lineComment
  /-- The star of the two characters that open a block comment. -/
  | blockOpen
  | blockComment
  /-- The slash of the two characters that close a block comment. -/
  | blockClose
  /-- The inside of a literal that the given quote closes. -/
  | quoted (quote : Char)
  /-- The character after a backslash in such a literal. -/
  | quotedEscape (quote : Char)
  | template
  /-- The character after a backslash in a template. -/
  | templateEscape
  deriving Repr, DecidableEq

/-- The character that opens and closes a template. -/
def backTick : Char := '\x60'

namespace Region

/-- The region after a character, given the character that follows it. -/
def next : Region → Char → Option Char → Region
  | code, c, following =>
      if c = '/' ∧ following = some '*' then blockOpen
      else if c = '/' ∧ following = some '/' then lineComment
      else if c = '\'' ∨ c = '"' then quoted c
      else if c = backTick then template
      else code
  | lineComment, c, _ => if c = '\n' then code else lineComment
  | blockOpen, _, _ => blockComment
  | blockComment, c, following =>
      if c = '*' ∧ following = some '/' then blockClose else blockComment
  | blockClose, _, _ => code
  | quoted quote, c, _ =>
      if c = '\\' then quotedEscape quote
      else if c = quote ∨ c = '\n' then code
      else quoted quote
  | quotedEscape quote, _, _ => quoted quote
  | template, c, _ =>
      if c = '\\' then templateEscape
      else if c = backTick then code
      else template
  | templateEscape, _, _ => template

/-- Whether a character of a region is shown: code, and the delimiters of literals. -/
def shows : Region → Char → Option Char → Bool
  | code, c, following =>
      !(c == '/' && (following == some '*' || following == some '/'))
  | quoted quote, c, _ => c == quote
  | template, c, _ => c == backTick
  | _, _, _ => false

section

variable (c quote : Char) (following : Option Char)

@[simp] theorem shows_code : code.shows c following =
    !(c == '/' && (following == some '*' || following == some '/')) := rfl

@[simp] theorem shows_lineComment : lineComment.shows c following = false := rfl

@[simp] theorem shows_blockOpen : blockOpen.shows c following = false := rfl

@[simp] theorem shows_blockComment : blockComment.shows c following = false := rfl

@[simp] theorem shows_blockClose : blockClose.shows c following = false := rfl

@[simp] theorem shows_quoted : (quoted quote).shows c following = (c == quote) := rfl

@[simp] theorem shows_quotedEscape : (quotedEscape quote).shows c following = false := rfl

@[simp] theorem shows_template : template.shows c following = (c == backTick) := rfl

@[simp] theorem shows_templateEscape : templateEscape.shows c following = false := rfl

end

/-- The region after a text that is followed by the character `following`. -/
def after (following : Option Char) : Region → List Char → Region
  | region, [] => region
  | region, c :: rest => after following (region.next c (rest.head?.or following)) rest

end Region

/-- A character that is not shown: as many spaces as it has bytes, unless it breaks the line. -/
def blank (c : Char) : List Char :=
  if c = '\n' ∨ c = '\r' then [c] else List.replicate c.utf8Size ' '

/-- A blanked character keeps its number of bytes. -/
theorem byteSize_blank (c : Char) : Text.byteSize (blank c) = c.utf8Size := by
  unfold blank
  split
  · simp
  · have hspace : Char.utf8Size ' ' = 1 := by decide
    have hbytes : ∀ n, Text.byteSize (List.replicate n ' ') = n := by
      intro n
      induction n with
      | zero => rfl
      | succ n ih => rw [List.replicate_succ, Text.byteSize_cons, ih, hspace]; omega
    exact hbytes _

/-- The masked form of a text that begins in the given region. -/
def maskFrom : Region → List Char → List Char
  | _, [] => []
  | region, c :: rest =>
      (if region.shows c rest.head? then [c] else blank c) ++
        maskFrom (region.next c rest.head?) rest

/-- Masking keeps the number of bytes. -/
theorem byteSize_maskFrom (region : Region) (text : List Char) :
    Text.byteSize (maskFrom region text) = Text.byteSize text := by
  induction text generalizing region with
  | nil => rfl
  | cons c rest ih =>
      rw [maskFrom, Text.byteSize_append, ih, Text.byteSize_cons]
      split
      · simp
      · rw [byteSize_blank]

/-- The masked form of a source text. -/
def maskChars (source : List Char) : List Char :=
  maskFrom .code source

/-- The masked form of a source text. -/
def mask (source : String) : String :=
  String.ofList (maskChars source.toList)

end LayerLint.Source
