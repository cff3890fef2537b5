import LayerLint.Context.Basic
import LayerLint.Source.Reference
import LayerLint.Specifier
import LayerLint.Text.Position

/-! # Import edges

An edge leads from a file below a layer to the place below a layer that one of its references
resolves to. References to packages and to places outside all layers make no edge.
-/

namespace LayerLint

/-- A reference from one place below a layer to another. -/
structure ImportEdge where
  source : Placement
  target : Placement
  /-- The specifier as written. -/
  specifier : String
  kind : Source.ReferenceKind
  /-- The position of the specifier's first character. -/
  position : Text.Position
  deriving Repr

namespace ImportEdge

/-- The edge of one reference in a text. -/
def ofReference? (context : Context) (path : Path) (source : Placement) (text : String)
    (reference : Source.Reference) : Option ImportEdge := do
  let place ← Specifier.resolve? reference.specifier path context.root context.aliases
  let target ← context.placement? place
  return ⟨source, target, reference.specifier, reference.kind,
    .ofOffset text.toList reference.offset⟩

/-- The edges from a file with the given text, in the order of their references. -/
def allFrom (context : Context) (path : Path) (text : String) : List ImportEdge :=
  match context.placement? path with
  | none => []
  | some source =>
      (Source.Reference.allIn text).filterMap (ofReference? context path source text)

/-- Whether the edge leads to a layer of strictly greater rank. -/
def isUpward (edge : ImportEdge) : Bool :=
  match edge.source.rank, edge.target.rank with
  | some source, some target => decide (source < target)
  | _, _ => false

/-- Whether the edge leads to a layer of strictly smaller rank. -/
def isDownward (edge : ImportEdge) : Bool :=
  match edge.source.rank, edge.target.rank with
  | some source, some target => decide (target < source)
  | _, _ => false

end ImportEdge

end LayerLint
