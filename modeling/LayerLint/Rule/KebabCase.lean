import LayerLint.Rule.Basic
import LayerLint.Text.Uppercase

/-! # Names in kebab case

Directories and files below layers are named in kebab case: the directory's name, and each token of
a file's stem. Names that begin with an underscore are left to another rule. A file whose own name
is in order but whose path has a capital is reported once.
-/

namespace LayerLint.Rule.KebabCase

/-- The identifier of the rule. -/
def id : String := "FLA007"

/-- Whether a directory's name is in order. -/
def isGoodDirectory (layers : List String) (name : String) : Bool :=
  layers.contains name || Text.beginsWith "_" name || FileName.isKebabCase name

/-- Reports a directory below a layer whose name is not in order. -/
def checkDirectory (context : Context) (directory : Path) : Option Violation :=
  let relative := context.relative directory
  directory.fileName?.bind fun name =>
    if relative.isEmpty || !context.inLayerScope relative ||
        isGoodDirectory context.config.layerDirs name then none
    else some (.atStart id relative s!"Directory name '{name}' must be kebab-case.")

/-- What is wrong with the name of a file at a place. -/
def complaints (relative name : String) : List String :=
  match FileName.tokens (FileName.stem name) with
  | [] => []
  | module :: suffixes =>
      if !FileName.isKebabCase module then [s!"File module name '{module}' must be kebab-case."]
      else
        match suffixes.filter fun token => !FileName.isKebabCase token with
        | [] =>
            -- the names above the file and its extension have not been looked at yet
            if relative.toList.any Text.isUppercase then
              ["Path segments under layer directories must use lowercase kebab-case."]
            else []
        | wrong => wrong.map fun token => s!"File suffix token '{token}' must be kebab-case."

/-- Reports a file whose name is not in order. -/
def checkFile (context : Context) (path : Path) : List Violation :=
  match path.fileName? with
  | some name =>
      let relative := context.relative path
      (complaints relative name).map (.atStart id relative)
  | none => []

/-- Reports the directories and files below layers whose names are not in order. -/
def check (context : Context) : List Violation :=
  context.directories.filterMap (checkDirectory context) ++
    context.candidates.flatMap (checkFile context)

end KebabCase

/-- The rule on names in kebab case. -/
def kebabCase : Rule where
  id := KebabCase.id
  name := "kebab-case-naming"
  description := "Requires kebab-case directory and file names under layer directories"
  isOn config := config.namingConvention
  check := .tree KebabCase.check

end LayerLint.Rule
