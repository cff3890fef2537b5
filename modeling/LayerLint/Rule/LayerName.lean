import LayerLint.Rule.Basic

/-! # The names of layer directories

The name of a layer without its underscore is reserved everywhere, and below layers no other name
begins with an underscore.
-/

namespace LayerLint.Rule.LayerName

/-- The identifier of the rule. -/
def id : String := "FLA008"

/-- The names of layers without their underscore, unless that is a layer too. -/
def bareNames (layers : List String) : List String :=
  (layers.map fun layer => (Text.afterStart? "_" layer).getD layer).filter fun name =>
    !layers.contains name

/-- What is reported at a directory that is named like a layer without its underscore. -/
def bareMessage (name : String) : String :=
  s!"Layer directory '{name}' must use underscore-prefixed form (e.g. '_{name}')."

/-- What is reported at another name with an underscore. -/
def unknownMessage (layers : List String) (name : String) : String :=
  let known := Text.joinWith ", " layers
  s!"Unknown underscore-prefixed directory '{name}' found in layer scope. Use one of: {known}."

/-- What is wrong with the name of the directory at a place. -/
def complaints (layers : List String) (relative : String) : List String :=
  match (Path.segments relative).getLast? with
  | none => []
  | some name =>
      (if (bareNames layers).contains name then [bareMessage name] else []) ++
        if Layer.occursIn layers relative && Text.beginsWith "_" name &&
            !layers.contains name then [unknownMessage layers name]
        else []

/-- Reports directories with reserved names. -/
def check (context : Context) : List Violation :=
  context.directories.flatMap fun directory =>
    let relative := context.relative directory
    (complaints context.config.layerDirs relative).map (.atStart id relative)

end LayerName

/-- The rule on the names of layer directories. -/
def layerName : Rule where
  id := LayerName.id
  name := "layer-directory-naming"
  description := "Requires layer directories to use their underscore-prefixed names"
  isOn config := config.layerDirectoryNaming
  check := .tree LayerName.check

end LayerLint.Rule
