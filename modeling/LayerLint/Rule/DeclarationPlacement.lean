import LayerLint.Glob.Set
import LayerLint.Rule.Basic
import LayerLint.Source.Declaration

/-! # Where types are declared

Interfaces, type aliases and enumerations are declared in files set aside for them, so that modules
can share shapes without running one another's code.
-/

namespace LayerLint.Rule.DeclarationPlacement

/-- The identifier of the rule. -/
def id : String := "FLA002"

/-- What is reported at each declaration. -/
def message : String :=
  "'interface', 'type', and 'enum' declarations are only allowed in files matched by " ++
    "interfaceAllowedGlobs."

/-- Reports the declarations of a file that is not set aside for them. -/
def check (context : Context) (file : SourceFile) : List Violation :=
  if !file.isSource ||
      (GlobSet.ofList context.config.declarationGlobs).isMatch file.relativePath then []
  else
    (Source.Declaration.allIn file.text).map fun declaration =>
      file.violation id declaration.position.line declaration.position.column message

end DeclarationPlacement

/-- The rule on declarations. -/
def declarationPlacement : Rule where
  id := DeclarationPlacement.id
  name := "interface-placement"
  description :=
    "Allows interface/type/enum declarations only in files matched by interfaceAllowedGlobs"
  isOn _ := true
  check := .file DeclarationPlacement.check

end LayerLint.Rule
