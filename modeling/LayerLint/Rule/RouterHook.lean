import LayerLint.Rule.Basic
import LayerLint.Source.RouterHook
import LayerLint.Text.Position

/-! # Router hooks

What the router knows is read in pages and passed down. A call of a router hook in any other layer
is reported.
-/

namespace LayerLint.Rule.RouterHook

/-- The identifier of the rule. -/
def id : String := "FLA010"

/-- What is reported at a call. -/
def message (hook : String) : String :=
  s!"Router hook '{hook}' is only allowed in {Layer.pages} layers."

/-- Reports the calls of router hooks in a file outside the layer of pages. -/
def check (context : Context) (file : SourceFile) : List Violation :=
  if !file.isSource || !(context.placement? file.path).any (·.layer != Layer.pages) then []
  else
    let text := file.text.toList
    let routers := GlobSet.ofList context.config.routerHooks.routerModules
    (Source.HookCall.allIn file.text routers).map fun call =>
      let position := Text.Position.ofOffset text call.offset
      file.violation id position.line position.column (message call.name)

end RouterHook

/-- The rule on router hooks. -/
def routerHook : Rule where
  id := RouterHook.id
  name := "page-only-router-hook"
  description := "Allows router hooks only in the _pages layer"
  isOn config := config.routerHooks.enabled
  check := .file RouterHook.check

end LayerLint.Rule
