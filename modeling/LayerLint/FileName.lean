import LayerLint.Text.Pieces

/-! # File names

A file name is a stem and an extension; the first dot-separated token of a file or directory name
is the name of the module it belongs to. Names are expected in kebab case.
-/

namespace LayerLint.FileName

/-- Stem and extension. The extension begins with the last dot and keeps it; a dot that begins the
name begins no extension, so `.env` has none. -/
def split (name : String) : String × String :=
  let tail := name.toList.reverse.takeWhile (· != '.')
  match name.toList.reverse.dropWhile (· != '.') with
  | [] => (name, "")
  | [_] => (name, "")
  | _ :: stem => (String.ofList stem.reverse, String.ofList ('.' :: tail.reverse))

/-- The name without its extension. -/
def stem (name : String) : String := (split name).1

/-- The extension with its dot, or the empty text. -/
def extension (name : String) : String := (split name).2

/-- The dot-separated tokens of a name. -/
def tokens (name : String) : List String :=
  Text.pieces (· == '.') name

/-- The module that a file or directory name stands for: its first token, unless that is empty. -/
def moduleName? (name : String) : Option String :=
  let token := name.toList.takeWhile (· != '.')
  if token.isEmpty then none else some (String.ofList token)

/-- A character of a kebab-case word. -/
def isKebabChar (c : Char) : Bool :=
  c.isLower || c.isDigit

/-- Whether a word is in kebab case: non-empty groups of lowercase ASCII letters and digits with
single hyphens between them. -/
def isKebabCase (word : String) : Bool :=
  (word.toList.splitOnP (· == '-')).all fun group => !group.isEmpty && group.all isKebabChar

/-- The extensions of files whose text is read. -/
def sourceExtensions : List String := [".ts", ".tsx", ".js", ".jsx", ".mjs", ".cjs"]

/-- Whether a file of this name is a source text. -/
def isSource (name : String) : Bool :=
  sourceExtensions.contains (extension name)

end LayerLint.FileName
