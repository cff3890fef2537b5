import LayerLint.Rule.Basic

/-! # Barrel files

A file named `index` with any extension collects the exports of its directory, and is forbidden
below layers whatever the case of its letters.
-/

namespace LayerLint.Rule.BarrelFile

/-- The identifier of the rule. -/
def id : String := "FLA004"

/-- What is reported at a barrel file. -/
def message : String :=
  "Barrel files are forbidden in layer directories (index.*)."

/-- Whether a name is that of a barrel file. No character outside ASCII has one of the letters of
the word as its lowercase form, so ASCII case is all that counts. -/
def isBarrel (name : String) : Bool :=
  "index.".toList.isPrefixOf (name.toList.map Char.toLower)

/-- Reports a barrel file. -/
def check (_ : Context) (file : SourceFile) : List Violation :=
  if isBarrel file.name then [file.violation id 1 1 message] else []

end BarrelFile

/-- The rule on barrel files. -/
def barrelFile : Rule where
  id := BarrelFile.id
  name := "no-barrel-index"
  description := "Forbids barrel files (index.*) in layer directories"
  isOn _ := true
  check := .file BarrelFile.check

end LayerLint.Rule
