import LayerLint.Text.Pieces

/-! # Paths

A path is a text, kept as it was written, and is understood through its *components*: repeated
slashes, slashes at the end and dots between components say nothing. A dot that begins a relative
path is a component of its own. Two paths are the same place as written when their components are
equal, and paths are listed in the order of their components.
-/

namespace LayerLint

/-- A path as it was written. -/
structure Path where
  text : String
  deriving Repr, DecidableEq, Inhabited

namespace Path

/-- One step of a path. -/
inductive Component where
  /-- The slash that begins an absolute path. -/
  | root
  /-- A dot that begins a relative path. -/
  | here
  /-- Two dots: the directory above. -/
  | up
  /-- The name of a file or directory. -/
  | name (text : String)
  deriving Repr, DecidableEq, Inhabited

namespace Component

/-- A component as it is written. -/
def text : Component → String
  | root => "/"
  | here => "."
  | up => ".."
  | name text => text

/-- Kinds of components are ordered before names, and names by their bytes. -/
def rank : Component → Nat
  | root => 0
  | here => 1
  | up => 2
  | name _ => 3

/-- The order of components in listings. -/
def compare (first second : Component) : Ordering :=
  match first, second with
  | name a, name b => Ord.compare a b
  | _, _ => Ord.compare first.rank second.rank

/-- The component that a piece between slashes stands for: none if it is empty or a dot. -/
def ofPiece? (piece : String) : Option Component :=
  if piece = "" ∨ piece = "." then none
  else if piece = ".." then some up
  else some (name piece)

/-- The name, if the component is one. -/
def name? : Component → Option String
  | name text => some text
  | _ => none

end Component

/-- Whether the path begins at the root of the file system. -/
def isAbsolute (path : Path) : Bool :=
  Text.beginsWith "/" path.text

/-- The components of a path, in order. -/
def components (path : Path) : List Component :=
  let pieces := Text.pieces (· == '/') path.text
  let steps := pieces.filterMap Component.ofPiece?
  if path.isAbsolute then .root :: steps
  else if pieces.head? = some "." then .here :: steps
  else steps

/-- What tells a path from others: its components, and before them their number, because two paths
of different depth are then told apart at once. -/
abbrev Key := Nat × List Component

/-- The key of some components. -/
def keyOf (components : List Component) : Key :=
  (components.length, components)

/-- The key of a path. -/
def key (path : Path) : Key :=
  keyOf path.components

/-- The path that has these components. -/
def ofComponents : List Component → Path
  | .root :: rest => ⟨"/" ++ Text.joinWith "/" (rest.map Component.text)⟩
  | components => ⟨Text.joinWith "/" (components.map Component.text)⟩

/-- The place named by `path` as seen from the directory `base`: an absolute path stays what it
is, any other is written behind the base and a slash. -/
def join (base path : Path) : Path :=
  if path.isAbsolute then path
  else if base.text = "" ∨ (Text.beforeEnd? "/" base.text).isSome then
    ⟨base.text ++ path.text⟩
  else ⟨base.text ++ "/" ++ path.text⟩

/-- The path without its last component; `none` for the root and the empty path. -/
def parent? (path : Path) : Option Path :=
  let components := path.components
  match components.getLast? with
  | none => none
  | some .root => none
  | some _ => some (ofComponents components.dropLast)

/-- The name that the path ends in; `none` when it ends in two dots or names no entry. -/
def fileName? (path : Path) : Option String :=
  path.components.getLast?.bind Component.name?

/-- The name that the path ends in, and before it the key of the directory that it stands in. -/
def entry? (path : Path) : Option (Key × String) :=
  let components := path.components
  (components.getLast?.bind Component.name?).map fun name => (keyOf components.dropLast, name)

/-- Whether `path` lies at or below `base`, both as written. -/
def isAtOrBelow (base path : Path) : Bool :=
  base.components.isPrefixOf path.components

/-- Compares two lists of components from the left. -/
def compareComponents : List Component → List Component → Ordering
  | [], [] => .eq
  | [], _ :: _ => .lt
  | _ :: _, [] => .gt
  | a :: first, b :: second =>
      match Component.compare a b with
      | .eq => compareComponents first second
      | order => order

/-- The order of paths in listings. -/
def compare (first second : Path) : Ordering :=
  compareComponents first.components second.components

/-- The paths in listing order; paths with equal components keep their places. -/
def sort (paths : List Path) : List Path :=
  -- the components of each path are looked up once, not at each comparison
  ((paths.map fun path => (path.components, path)).mergeSort fun first second =>
    (compareComponents first.1 second.1).isLE).map Prod.snd

/-- The text with backslashes turned into slashes. -/
def toPosix (text : String) : String :=
  text.map fun c => if c = '\\' then '/' else c

/-- The non-empty pieces of a text between slashes and backslashes. -/
def segments (text : String) : List String :=
  (Text.pieces (fun c => c == '/' || c == '\\') text).filter (· != "")

end Path

end LayerLint
