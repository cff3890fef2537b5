import LayerLint.Config.Basic
import LayerLint.Json.Document
import LayerLint.Json.Pretty

/-! # Settings as JSON

Settings are read one by one. A setting that is absent or of the wrong kind keeps its default, so
only a text that is no JSON at all is refused. Written settings are complete and in a fixed order.
-/

namespace LayerLint

/-- Why settings cannot be had. -/
inductive ConfigError where
  /-- The file cannot be read as text. -/
  | unreadable
  /-- The text is no JSON. -/
  | malformed
  deriving Repr, DecidableEq

namespace Config

/-- The members of a JSON object. -/
abbrev Members := List (String × Json)

/-- The members of an object under a key. -/
def object? (members : Members) (key : String) : Option Members :=
  (Json.lastOf? members key).bind Json.object?

/-- The texts of an array under a key; items of other kinds are left out. -/
def strings? (members : Members) (key : String) : Option (List String) :=
  ((Json.lastOf? members key).bind Json.array?).map fun items => items.filterMap Json.string?

/-- The boolean under a key. -/
def flag? (members : Members) (key : String) : Option Bool :=
  (Json.lastOf? members key).bind Json.bool?

/-- The natural number of at most 64 bits under a key. -/
def natural? (members : Members) (key : String) : Option UInt64 :=
  ((Json.lastOf? members key).bind Json.natural?).bind fun n =>
    if h : n < UInt64.size then some (.ofNatLT n h) else none

/-- The flag `enabled` of an object under a key. -/
def switch? (members : Members) (key : String) : Option Bool :=
  (object? members key).bind (flag? · "enabled")

/-- The members of an object under a key for which `read` gives a value. -/
def dict? {α : Type} (read : Json → Option α) (members : Members) (key : String) :
    Option (Dict α) :=
  (object? members key).map fun entries =>
    -- repeated keys are settled first: the last one counts even if it cannot be read
    Dict.ofList <| (Dict.ofList entries).toList.filterMap fun entry =>
      (read entry.2).map (entry.1, ·)

/-- The switch of one rule. -/
def ruleSwitch? (value : Json) : Option (Option Bool) :=
  value.object?.map (flag? · "enabled")

/-- The settings of the rule on shared modules. -/
def sharedModulesOf (members : Members) (default : SharedModuleSettings) :
    SharedModuleSettings where
  enabled := (flag? members "enabled").getD default.enabled
  layers := (strings? members "layers").getD default.layers
  leastConsumers := (natural? members "minUpperModuleReferences").getD default.leastConsumers

/-- The settings of the rule on router hooks. -/
def routerHooksOf (members : Members) (default : RouterHookSettings) : RouterHookSettings where
  enabled := (flag? members "enabled").getD default.enabled
  routerModules := (strings? members "routerModules").getD default.routerModules

/-- The settings that the members of an object give. -/
def ofMembers (members : Members) : Config where
  layerDirs := (strings? members "layerDirs").getD standard.layerDirs
  ignoreDirs := (strings? members "ignoreDirs").getD standard.ignoreDirs
  allowedExtensions := (strings? members "allowedExtensions").getD standard.allowedExtensions
  defaultSuffixes := (strings? members "defaultTsSuffixes").getD standard.defaultSuffixes
  extraSuffixes := (strings? members "extraTsSuffixes").getD standard.extraSuffixes
  declarationGlobs := (strings? members "interfaceAllowedGlobs").getD standard.declarationGlobs
  pathAliases := (dict? Json.string? members "pathAliases").getD standard.pathAliases
  nestedLayer := (switch? members "nestedLayer").getD standard.nestedLayer
  sharedModules :=
    sharedModulesOf ((object? members "singleUseGlobal").getD []) standard.sharedModules
  namingConvention := (switch? members "namingConvention").getD standard.namingConvention
  layerDirectoryNaming :=
    (switch? members "layerDirectoryNaming").getD standard.layerDirectoryNaming
  moduleGrouping := (switch? members "moduleGrouping").getD standard.moduleGrouping
  routerHooks := routerHooksOf ((object? members "pageOnlyRouterHook").getD []) standard.routerHooks
  syntaxAccelerator := (switch? members "syntaxAccelerator").getD standard.syntaxAccelerator
  rules := (dict? ruleSwitch? members "rules").getD standard.rules

/-- The settings that a value gives; one that is no object gives none. -/
def ofJson (value : Json) : Config :=
  match value.object? with
  | some members => ofMembers members
  | none => standard

/-- The settings that a text gives. -/
def parse (text : String) : Except ConfigError Config :=
  match Json.parse? text with
  | some value => .ok (ofJson value)
  | none => .error .malformed

/-- A switch as it is written. -/
def switchJson (enabled : Bool) : Json :=
  .object [("enabled", .bool enabled)]

/-- The switch of a rule as it is written. -/
def ruleSwitchJson : Option Bool → Json
  | some enabled => switchJson enabled
  | none => .object []

/-- The settings as they are written. -/
def toJson (config : Config) : Json :=
  .object
    [("layerDirs", .strings config.layerDirs),
     ("ignoreDirs", .strings config.ignoreDirs),
     ("allowedExtensions", .strings config.allowedExtensions),
     ("defaultTsSuffixes", .strings config.defaultSuffixes),
     ("extraTsSuffixes", .strings config.extraSuffixes),
     ("interfaceAllowedGlobs", .strings config.declarationGlobs),
     ("pathAliases",
      .object (config.pathAliases.toList.map fun entry => (entry.1, .string entry.2))),
     ("nestedLayer", switchJson config.nestedLayer),
     ("singleUseGlobal", .object
       [("enabled", .bool config.sharedModules.enabled),
        ("layers", .strings config.sharedModules.layers),
        ("minUpperModuleReferences", .natural config.sharedModules.leastConsumers.toNat)]),
     ("namingConvention", switchJson config.namingConvention),
     ("layerDirectoryNaming", switchJson config.layerDirectoryNaming),
     ("moduleGrouping", switchJson config.moduleGrouping),
     ("pageOnlyRouterHook", .object
       [("enabled", .bool config.routerHooks.enabled),
        ("routerModules", .strings config.routerHooks.routerModules)]),
     ("syntaxAccelerator", switchJson config.syntaxAccelerator),
     ("rules", .object (config.rules.toList.map fun entry => (entry.1, ruleSwitchJson entry.2)))]

end Config

end LayerLint
