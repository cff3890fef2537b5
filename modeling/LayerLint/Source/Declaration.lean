import LayerLint.Pattern.Search
import LayerLint.Source.Mask
import LayerLint.Text.Position

/-! # Declarations of types

Interfaces, type aliases and enumerations are found in the masked text by their keyword, their name
and what follows it. A keyword behind a dot or a dollar sign belongs to a member or to a longer
name and declares nothing.
-/

namespace LayerLint.Source

/-- What is declared. -/
inductive DeclarationKind where
  | interface
  | typeAlias
  | enum
  deriving Repr, DecidableEq

/-- The keyword that declares it. -/
def DeclarationKind.keyword : DeclarationKind → String
  | .interface => "interface"
  | .typeAlias => "type"
  | .enum => "enum"

/-- A declaration in a source text. -/
structure Declaration where
  kind : DeclarationKind
  name : String
  /-- The offset of the keyword, or of the `const` before it. -/
  offset : Nat
  position : Text.Position
  deriving Repr, DecidableEq

/-- Whether a character may begin an identifier. -/
def isNameStart (c : Char) : Bool :=
  c.isAlpha || c == '_' || c == '$'

/-- Whether a character before a name makes it a part of something longer. -/
def isMemberMark (c : Char) : Bool :=
  c == '.' || c == '$'

namespace Declaration

open Pattern

/-- A declared name. -/
def declaredName : Pattern :=
  named "name" (andThen (one isNameStart) (long fun c => Text.isWordChar c || c == '$'))

/-- A list of type parameters without the given characters, as short as possible. -/
def parameters (barred : List Char) : Pattern :=
  maybe (all [word "<", short fun c => !barred.contains c, word ">", blanks])

/-- The forms of declarations. -/
def forms : List (DeclarationKind × Pattern) :=
  [(.interface, all [boundary, word "interface", someBlanks, declaredName, blanks,
      parameters ['\x7b', ';'], orElse (andThen (word "extends") boundary) (one (· == '\x7b'))]),
   (.typeAlias, all [boundary, word "type", someBlanks, declaredName, blanks,
      parameters [';', '\x7b', '\x7d'], word "="]),
   (.enum, all [boundary, maybe (andThen (word "const") someBlanks), word "enum", someBlanks,
      declaredName, blanks, one (· == '\x7b')])]

/-- The declaration that a match stands for, unless the match is part of something longer. -/
def ofMatch? (source : List Char) (kind : DeclarationKind) (found : Match) : Option Declaration :=
  if found.whole.start.before.any isMemberMark then none
  else
    let offset := found.whole.start.offset
    some ⟨kind, found.text "name", offset, .ofOffset source offset⟩

/-- The declarations of a source text, by offset. -/
def allIn (source : String) : List Declaration :=
  let chars := source.toList
  let masked := maskChars chars
  (forms.flatMap fun form => (form.2.findAll masked).filterMap (ofMatch? chars form.1)).mergeSort
    fun first second => decide (first.offset ≤ second.offset)

end Declaration

end LayerLint.Source
