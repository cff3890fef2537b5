import LayerLint.Pattern.Search
import LayerLint.Source.Mask

/-! # References to other modules

Import and re-export clauses, bare imports, dynamic imports and `require` calls refer to other
modules. They are found in the masked text, where the inside of every literal is blank, and the
specifier is read from the source at the same bytes. References are listed by offset, each offset
once.
-/

namespace LayerLint.Source

/-- The form of a reference. -/
inductive ReferenceKind where
  /-- An import clause or a bare import. -/
  | staticImport
  /-- An export clause that names a module. -/
  | reExport
  /-- A call of `import`. -/
  | dynamicImport
  /-- A call of `require`. -/
  | require
  deriving Repr, DecidableEq

/-- The order of forms that meet at one offset. -/
def ReferenceKind.rank : ReferenceKind → Nat
  | .staticImport => 0
  | .reExport => 1
  | .dynamicImport => 2
  | .require => 3

/-- A reference to a module. -/
structure Reference where
  /-- The specifier as written, without its quotes. -/
  specifier : String
  /-- The offset of the specifier's first character. -/
  offset : Nat
  kind : ReferenceKind
  deriving Repr, DecidableEq

namespace Reference

open Pattern

/-- A literal on one line; its inside is remembered. -/
def quotedIn (quote : Char) : Pattern :=
  all [one (· == quote), named "specifier" (long fun c => c != quote && c != '\n'),
    one (· == quote)]

/-- A string literal. -/
def literal : Pattern :=
  orElse (quotedIn '"') (quotedIn '\'')

/-- The word `type` before a clause. -/
def typeWord : Pattern :=
  maybe (andThen (word "type") someBlanks)

/-- A character that may stand between a clause's keyword and its `from`. -/
def isClauseChar (c : Char) : Bool :=
  c != ';' && c != '\'' && c != '"' && c != backTick

/-- A clause that a keyword opens and a `from` with a literal closes. -/
def clauseOf (keyword : String) : Pattern :=
  all [boundary, word keyword, someBlanks, typeWord, short isClauseChar, boundary, word "from",
    blanks, literal]

/-- A call of the given word with a literal alone. -/
def callOf (keyword : String) : Pattern :=
  all [boundary, word keyword, blanks, word "(", blanks, literal, blanks, word ")"]

/-- The forms of references. -/
def forms : List (ReferenceKind × Pattern) :=
  [(.staticImport, clauseOf "import"),
   (.staticImport, all [boundary, word "import", blanks, literal]),
   (.reExport, clauseOf "export"),
   (.dynamicImport, callOf "import"),
   (.require, callOf "require")]

/-- The reference that a match stands for; none if the source has no text, or none that can be cut
out, at the bytes of the literal. -/
def ofMatch? (source : List Char) (kind : ReferenceKind) (found : Match) : Option Reference := do
  let span ← found.get? "specifier"
  let specifier ← Text.slice? source span.start.offset span.stop.offset
  if specifier.isEmpty then none
  else return ⟨String.ofList specifier, span.start.offset, kind⟩

/-- The order of references: by offset, then by form. -/
def inOrder (first second : Reference) : Bool :=
  decide (first.offset < second.offset) ||
    (first.offset == second.offset && decide (first.kind.rank ≤ second.kind.rank))

/-- The references without those that repeat the offset before them. -/
def dropRepeats (last : Option Nat) : List Reference → List Reference
  | [] => []
  | found :: rest =>
      if some found.offset = last then dropRepeats last rest
      else found :: dropRepeats (some found.offset) rest

/-- The references of a source whose masked form is given. -/
def allInMasked (source masked : List Char) : List Reference :=
  dropRepeats none <|
    (forms.flatMap fun form =>
      (form.2.findAll masked).filterMap (ofMatch? source form.1)).mergeSort inOrder

/-- The references of a source text. -/
def allIn (source : String) : List Reference :=
  allInMasked source.toList (maskChars source.toList)

end Reference

end LayerLint.Source
