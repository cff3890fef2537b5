import LayerLint.Glob.Size
import LayerLint.Path.Basic

/-! # Sets of globs

A path text is in a set of globs when one of them matches it. Globs that are too large are left out
of the set.
-/

namespace LayerLint

/-- A set of globs. -/
structure GlobSet where
  globs : List Glob
  deriving Repr

namespace GlobSet

/-- The set of the globs that the texts spell. -/
def ofList (texts : List String) : GlobSet :=
  ⟨texts.filterMap Glob.ofString?⟩

/-- Whether there is no glob. -/
def isEmpty (set : GlobSet) : Bool :=
  set.globs.isEmpty

/-- Whether one of the globs matches the text, its backslashes turned into slashes. -/
def isMatch (set : GlobSet) (text : String) : Bool :=
  set.globs.any (·.isMatch (Path.toPosix text))

end GlobSet

end LayerLint
