import LayerLint.ImportEdge
import LayerLint.Rule.Basic

/-! # The direction of references

A file may refer to its own layer and to layers of smaller rank. A reference to a layer of greater
rank is reported where its specifier stands.
-/

namespace LayerLint.Rule.LayerDirection

/-- The identifier of the rule. -/
def id : String := "FLA003"

/-- What is reported at an upward reference. -/
def message (edge : ImportEdge) : String :=
  s!"Invalid upward reference from {edge.source.layer} to {edge.target.layer} " ++
    s!"via '{edge.specifier}'."

/-- Reports the upward references of a file. -/
def check (context : Context) (file : SourceFile) : List Violation :=
  if !file.isSource then []
  else
    ((ImportEdge.allFrom context file.path file.text).filter ImportEdge.isUpward).map fun edge =>
      file.violation id edge.position.line edge.position.column (message edge)

end LayerDirection

/-- The rule on the direction of references. -/
def layerDirection : Rule where
  id := LayerDirection.id
  name := "layer-reference"
  description := "Forbids imports from a lower-ranked layer into a higher-ranked layer"
  isOn _ := true
  check := .file LayerDirection.check

end LayerLint.Rule
