import LayerLint.Dict
import LayerLint.Layer

/-! # Configuration

What a project may set: its layers, the names its files may have, the modules that count as
routers, its path aliases, and which rules run. Everything has a default.
-/

namespace LayerLint

/-- Settings of the rule on shared modules. -/
structure SharedModuleSettings where
  enabled : Bool := true
  /-- The layers whose modules are looked at. -/
  layers : List String := ["_states", "_components"]
  /-- How many consumers a shared module needs. -/
  leastConsumers : UInt64 := 2
  deriving DecidableEq

/-- Settings of the rule on router hooks. -/
structure RouterHookSettings where
  enabled : Bool := true
  /-- The specifiers of router modules, as globs. -/
  routerModules : List String :=
    ["next/navigation", "next/app/navigation", "next/router", "next/compat/router", "react-router",
     "react-router-dom", "react-router-dom/**", "@remix-run/router"]
  deriving DecidableEq

/-- The settings of a project. -/
structure Config where
  /-- The names of layer directories, from the top down. -/
  layerDirs : List String := Layer.names
  /-- The names of directories that are not entered. -/
  ignoreDirs : List String := [".git", "node_modules", "docs", "linter"]
  /-- The extensions that files below layers may have. -/
  allowedExtensions : List String := [".ts", ".tsx"]
  /-- The suffixes that TypeScript files may have before their extension. -/
  defaultSuffixes : List String := ["type", "schema", "stories", "test"]
  /-- Further such suffixes. -/
  extraSuffixes : List String := []
  /-- The files that may declare types, as globs. -/
  declarationGlobs : List String := ["**/*.type.ts"]
  /-- Path aliases, which go before those found in compiler settings. -/
  pathAliases : Dict String := Dict.empty
  nestedLayer : Bool := true
  sharedModules : SharedModuleSettings := {}
  namingConvention : Bool := true
  layerDirectoryNaming : Bool := true
  moduleGrouping : Bool := true
  routerHooks : RouterHookSettings := {}
  syntaxAccelerator : Bool := true
  /-- Switches of single rules; an entry may leave its rule as it is. -/
  rules : Dict (Option Bool) := Dict.empty
  deriving DecidableEq

namespace Config

/-- The settings of a project that sets nothing. -/
def standard : Config := {}

instance : Inhabited Config := ⟨standard⟩

/-- Whether the switch of a rule leaves it on. -/
def isRuleEnabled (config : Config) (rule : String) : Bool :=
  match config.rules.get? rule with
  | some (some enabled) => enabled
  | _ => true

/-- The suffixes that TypeScript files may have, each of them once. -/
def allowedSuffixes (config : Config) : List String :=
  (config.defaultSuffixes ++ config.extraSuffixes).foldl
    (fun listed suffix => if listed.contains suffix then listed else listed ++ [suffix]) []

end Config

end LayerLint
