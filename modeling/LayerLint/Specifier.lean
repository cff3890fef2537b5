import LayerLint.Alias

/-! # Import specifiers

A specifier names a place relative to the importing file, relative to the root, or through an
alias; anything else is a package and leads nowhere in the tree. Resolution works on paths alone:
the place usually lacks an extension and need not exist.
-/

namespace LayerLint.Specifier

/-- How a specifier is resolved. -/
inductive Class where
  /-- It begins with a dot and starts from the importing file's directory. -/
  | relative
  /-- It begins with a slash and starts from the root. -/
  | rootAbsolute
  /-- An alias matches it. -/
  | aliased
  /-- It names a package. -/
  | external
  deriving Repr, DecidableEq

/-- The class of a specifier; its first character is looked at before the aliases. -/
def classify (specifier : String) (aliases : AliasTable) : Class :=
  if Text.beginsWith "." specifier then .relative
  else if Text.beginsWith "/" specifier then .rootAbsolute
  else if aliases.isMatch specifier then .aliased
  else .external

/-- The place that a specifier leads to from `source`; `none` for packages. -/
def resolve? (specifier : String) (source root : Path) (aliases : AliasTable) : Option Path :=
  match classify specifier aliases with
  | .relative => some (((source.parent?.getD root).join ⟨specifier⟩).normalize)
  | .rootAbsolute => some ((root.join ⟨Text.dropLeading '/' specifier⟩).normalize)
  | .aliased => aliases.resolve? specifier root
  | .external => none

end LayerLint.Specifier
