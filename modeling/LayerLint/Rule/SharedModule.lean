import LayerLint.ImportEdge
import LayerLint.Rule.Basic

/-! # Shared modules

A module in one of certain layers is shared, and should have several consumers; otherwise it belongs
next to its only one. Consumers are counted by downward references: each counts as the container or
page it lies in, or else as its own module. A module that nobody refers to is left alone, and so is
one whose only consumer already contains it.
-/

namespace LayerLint

/-- The consumers in listing order, each of them once, with one more. -/
def Consumer.insert (consumer : Consumer) : List Consumer → List Consumer
  | [] => [consumer]
  | next :: rest =>
      if consumer.before next then consumer :: next :: rest
      else if consumer = next then next :: rest
      else next :: Consumer.insert consumer rest

namespace Rule.SharedModule

/-- The identifier of the rule. -/
def id : String := "FLA006"

/-- The references to one module. -/
structure Usage where
  layer : String
  /-- The consumers in listing order. -/
  consumers : List Consumer

/-- The first file of each module in the layers that are looked at, by its scoped key. -/
def firstFiles (context : Context) : Dict String :=
  (context.candidates.filterMap context.placement?).foldl (fun files placement =>
    match placement.scopedKey with
    | some key =>
        if context.config.sharedModules.layers.contains placement.layer then
          files.modify key placement.relativePath fun first =>
            if placement.relativePath < first then placement.relativePath else first
        else files
    | none => files) .empty

/-- All edges from source texts below layers. -/
def edges (context : Context) : List ImportEdge :=
  (context.candidates.filter Path.isSource).flatMap fun path =>
    ImportEdge.allFrom context path (context.text path)

/-- Counts an edge for the module that it leads to. -/
def count (config : Config) (usages : Dict Usage) (edge : ImportEdge) : Dict Usage :=
  match edge.target.scopedKey, edge.source.consumer? with
  | some key, some consumer =>
      if config.sharedModules.layers.contains edge.target.layer && edge.isDownward then
        usages.modify key ⟨edge.target.layer, []⟩ fun usage =>
          { usage with consumers := consumer.insert usage.consumers }
      else usages
  | _, _ => usages

/-- The references to the modules in the layers that are looked at, by scoped key. -/
def usages (context : Context) : Dict Usage :=
  (edges context).foldl (count context.config) .empty

/-- Where a module with these consumers should go. -/
def hint (usage : Usage) : String :=
  match usage.consumers with
  | [.container key] => s!"Move it into its only consuming container: '{key}/{usage.layer}/'."
  | [.page key] => s!"Move it into its only consuming page: '{key}/{usage.layer}/'."
  | _ => "Consider nesting it closer to its usage scope."

/-- What is reported at a module with too few consumers. -/
def message (key : String) (usage : Usage) : String :=
  let shown := Text.joinWith ", " (usage.consumers.map fun consumer => s!"'{consumer.key}'")
  let size := usage.consumers.length
  s!"Global module '{key}' is referenced by only {size} upper-layer scope(s): {shown}. {hint usage}"

/-- Whether a module has enough consumers, or one that contains it. -/
def isPlacedWell (config : Config) (key : String) (usage : Usage) : Bool :=
  decide (config.sharedModules.leastConsumers.toNat ≤ usage.consumers.length) ||
    match usage.consumers with
    | [only] => only.contains key
    | _ => false

/-- Reports modules with too few consumers. -/
def check (context : Context) : List Violation :=
  let files := firstFiles context
  (usages context).toList.filterMap fun entry =>
    (files.get? entry.1).bind fun file =>
      if isPlacedWell context.config entry.1 entry.2 then none
      else some (.atStart id file (message entry.1 entry.2))

end Rule.SharedModule

/-- The rule on shared modules. -/
def Rule.sharedModule : Rule where
  id := SharedModule.id
  name := "single-use-global-module"
  description := "Requires shared modules to be used by enough distinct consumer scopes"
  isOn config := config.sharedModules.enabled
  check := .tree SharedModule.check

end LayerLint
