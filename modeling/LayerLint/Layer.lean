import LayerLint.Path.Basic

/-! # Layers

Directories with certain names are *layers*. A layer has a rank in a fixed table, and code may
depend on layers of its own rank or below. A layer that the table does not list has no rank and
takes no part in questions of direction.
-/

namespace LayerLint

/-- A table of layer names and their ranks, in the order of the names. -/
abbrev RankTable := List (String × Int)

namespace Layer

/-- The layer of pages, the only one that may call router hooks. -/
def pages : String := "_pages"

/-- The layer whose modules count as consumers of what is shared below them. -/
def containers : String := "_containers"

/-- The ranks of the layers. -/
def ranks : RankTable :=
  [("_apis", 1), ("_components", 2), ("_containers", 4), ("_pages", 5), ("_states", 3),
   ("_utils", 0)]

/-- The layer directories of a project that names none of its own, from the top down. -/
def names : List String :=
  ["_pages", "_containers", "_states", "_components", "_apis", "_utils"]

/-- The rank of a layer in a table, if it has one. -/
def rank? (table : RankTable) (layer : String) : Option Int :=
  table.lookup layer

/-- The number of segments up to and including the last one that names a layer. -/
def innermostEnd? (layers segments : List String) : Option Nat :=
  (segments.reverse.findIdx? layers.contains).map (segments.length - ·)

/-- The last segment of a path text that names a layer. -/
def innermost? (layers : List String) (text : String) : Option String :=
  (Path.segments text).reverse.find? layers.contains

/-- Whether some segment of a path text names a layer. -/
def occursIn (layers : List String) (text : String) : Bool :=
  (Path.segments text).any layers.contains

end Layer

end LayerLint
