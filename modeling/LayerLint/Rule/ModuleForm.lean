import LayerLint.Rule.Basic

/-! # The form of modules

The modules of a layer directory are all directories or all files. A module that is both is
reported by its name as well.
-/

namespace LayerLint.Rule.ModuleForm

/-- The identifier of the rule. -/
def id : String := "FLA009"

/-- The modules that are directories. -/
def directoryModules (layers : List String) (children : Children) : List String :=
  children.directoryNames.filter fun name =>
    !(Text.beginsWith "." name || Text.beginsWith "_" name || layers.contains name)

/-- The modules that are files, in order and each of them once. -/
def fileModules (children : Children) : Dict Unit :=
  .ofList <| (children.fileNames.filter fun name =>
    !(Text.beginsWith "." name || Text.beginsWith "index." name)).filterMap fun name =>
      (FileName.moduleName? name).map (·, ())

/-- What is reported at a layer directory with modules of both forms. -/
def mixedMessage (layer : String) : String :=
  s!"Layer directory '{layer}' mixes directory-based modules and file-based modules. " ++
    "Use one grouping style per layer directory."

/-- What is reported at a module of both forms. -/
def bothMessage (module layer : String) : String :=
  s!"Module '{module}' exists as both file and directory under '{layer}'. " ++
    "If a module has nested layers, keep it directory-based only."

/-- What is wrong in a layer directory with these children. -/
def complaints (layers : List String) (layer : String) (children : Children) : List String :=
  let directories := directoryModules layers children
  let files := fileModules children
  (if !directories.isEmpty && !files.isEmpty then [mixedMessage layer] else []) ++
    (directories.filter fun module => (files.get? module).isSome).map (bothMessage · layer)

/-- Reports one directory that is named like a layer. -/
def checkDirectory (context : Context) (directory : Path) : List Violation :=
  match directory.fileName?, context.children? directory with
  | some layer, some children =>
      (complaints context.config.layerDirs layer children).map
        (.atStart id (context.relative directory))
  | _, _ => []

/-- Reports layer directories with modules of both forms. -/
def check (context : Context) : List Violation :=
  context.layerDirectories.flatMap (checkDirectory context)

end ModuleForm

/-- The rule on the form of modules. -/
def moduleForm : Rule where
  id := ModuleForm.id
  name := "module-grouping"
  description := "Forbids mixing directory-based and file-based modules in one layer directory"
  isOn config := config.moduleGrouping
  check := .tree ModuleForm.check

end LayerLint.Rule
