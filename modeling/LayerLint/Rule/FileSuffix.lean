import LayerLint.Rule.Basic

/-! # Extensions and suffixes

Files below layers have one of the allowed extensions. The name of a TypeScript file may have a
suffix before the extension, which must be an allowed one too.
-/

namespace LayerLint.Rule.FileSuffix

/-- The identifier of the rule. -/
def id : String := "FLA001"

/-- The extensions that may have a suffix before them. -/
def suffixedExtensions : List String := [".ts", ".tsx"]

/-- The suffix before the extension: the last token of the stem, unless it is the only one. -/
def suffix? (name : String) : Option String :=
  match (FileName.tokens (FileName.stem name)).reverse with
  | last :: _ :: _ => some last
  | _ => none

/-- What is wrong with a file name. -/
def complaint? (config : Config) (name : String) : Option String :=
  let extension := FileName.extension name
  if !config.allowedExtensions.contains extension then
    let shown := if extension.isEmpty then "(none)" else extension
    let allowed := Text.joinWith ", " config.allowedExtensions
    some s!"Extension '{shown}' is not allowed in layer files. Allowed: {allowed}"
  else if !suffixedExtensions.contains extension then none
  else
    (suffix? name).bind fun suffix =>
      if config.allowedSuffixes.contains suffix then none
      else
        let bare := Text.dropLeading '.' extension
        let allowed := Text.joinWith ", " config.allowedSuffixes
        some s!"Suffix '.{suffix}.{bare}' is not allowed. Allowed suffixes: {allowed}"

/-- Reports a file whose name is not allowed. -/
def check (context : Context) (file : SourceFile) : List Violation :=
  ((complaint? context.config file.name).map (file.violation id 1 1)).toList

end FileSuffix

/-- The rule on extensions and suffixes. -/
def fileSuffix : Rule where
  id := FileSuffix.id
  name := "extension-suffix"
  description := "Restricts extensions and dotted filename suffixes of layer files"
  isOn _ := true
  check := .file FileSuffix.check

end LayerLint.Rule
