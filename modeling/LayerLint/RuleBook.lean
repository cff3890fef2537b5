import LayerLint.Rule.BarrelFile
import LayerLint.Rule.DeclarationPlacement
import LayerLint.Rule.FileSuffix
import LayerLint.Rule.KebabCase
import LayerLint.Rule.LayerDirection
import LayerLint.Rule.LayerName
import LayerLint.Rule.ModuleForm
import LayerLint.Rule.NestedLayer
import LayerLint.Rule.RouterHook
import LayerLint.Rule.SharedModule

/-! # The rule book

All rules, those for single files first.
-/

namespace LayerLint

/-- All rules. -/
def ruleBook : List Rule :=
  [.fileSuffix, .declarationPlacement, .layerDirection, .barrelFile, .routerHook, .nestedLayer,
   .sharedModule, .kebabCase, .layerName, .moduleForm]

end LayerLint
