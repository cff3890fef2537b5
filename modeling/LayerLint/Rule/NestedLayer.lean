import LayerLint.Rule.Basic

/-! # Layers inside layers

Between a layer and a layer inside it stands the directory of a module.
-/

namespace LayerLint.Rule.NestedLayer

/-- The identifier of the rule. -/
def id : String := "FLA005"

/-- What is reported at a layer directly inside another. -/
def message (child parent : String) : String :=
  s!"Nested layer directory '{child}' cannot be a direct child of '{parent}'. " ++
    "Place nested layers inside a module directory first."

/-- Reports the layers directly inside one directory that is named like a layer. -/
def checkDirectory (context : Context) (directory : Path) : List Violation :=
  match directory.fileName?, context.children? directory with
  | some parent, some children =>
      (children.directoryNames.filter context.config.layerDirs.contains).map fun child =>
        .atStart id (context.relative (directory.join ⟨child⟩)) (message child parent)
  | _, _ => []

/-- Reports the layers directly inside other layers. -/
def check (context : Context) : List Violation :=
  context.layerDirectories.flatMap (checkDirectory context)

end NestedLayer

/-- The rule on layers inside layers. -/
def nestedLayer : Rule where
  id := NestedLayer.id
  name := "nested-layer-directory"
  description := "Forbids a layer directory as a direct child of another layer directory"
  isOn config := config.nestedLayer
  check := .tree NestedLayer.check

end LayerLint.Rule
