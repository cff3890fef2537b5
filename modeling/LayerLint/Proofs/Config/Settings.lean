import LayerLint.Proofs.Config.Json
import LayerLint.Proofs.Json.Edit

/-! # Settings one by one

Each setting has a place of its own, a path of keys, and is read from what is found there. If nothing
is found, or what is found has another shape, the setting keeps its default.
-/

namespace LayerLint.Config

open Json (follow lastOf?)

variable {value : Json}

/-! ## What settings are read from -/

/-- The shapes of values that settings are read from. -/
inductive Shape where
  | array
  | object
  | boolean
  /-- A natural number of at most 64 bits. -/
  | word
  deriving DecidableEq

/-- The value has the shape. -/
def Shape.Fits : Shape → Json → Prop
  | array, value => ∃ items, value = .array items
  | object, value => ∃ members, value = .object members
  | boolean, value => ∃ flag, value = .bool flag
  | word, value => ∃ n < UInt64.size, value = .natural n

/-- The kinds of settings. -/
inductive Kind where
  /-- A list of texts. -/
  | texts
  | flag
  | threshold
  /-- Texts by their names. -/
  | aliases
  /-- Switches by the identifiers of their rules. -/
  | switches
  deriving DecidableEq

/-- The entries for which `read` gives a value. -/
def readEntries {α : Type} (read : Json → Option α) (entries : Members) : Dict α :=
  Dict.ofList <| (Dict.ofList entries).toList.filterMap fun entry =>
    (read entry.2).map (entry.1, ·)

theorem get?_readEntries {α : Type} (read : Json → Option α) (entries : Members) (name : String) :
    (readEntries read entries).get? name = (lastOf? entries name).bind read := by
  -- each key is listed once and keeps its place, so that no entry replaces another
  let kept : Dict α := ⟨(Dict.ofList entries).toList.filterMap fun entry =>
      (read entry.2).map (entry.1, ·), by
    refine (Dict.ofList entries).sorted.filterMap _ ?_
    intro first second hlt entry hentry entry' hentry'
    obtain ⟨_, -, rfl⟩ := Option.map_eq_some_iff.mp hentry
    obtain ⟨_, -, rfl⟩ := Option.map_eq_some_iff.mp hentry'
    exact hlt⟩
  have hkept : readEntries read entries = kept := Dict.ofList_toList kept
  apply Option.ext
  intro value
  rw [hkept, Dict.get?_eq_some_iff, Option.bind_eq_some_iff, lastOf?, ← Dict.get?_ofList]
  simp only [kept, List.mem_filterMap, Prod.exists, Option.map_eq_some_iff, Prod.mk.injEq,
    Dict.get?_eq_some_iff]
  constructor
  · rintro ⟨_, json, hmem, _, hread, rfl, rfl⟩
    exact ⟨json, hmem, hread⟩
  · rintro ⟨json, hmem, hread⟩
    exact ⟨name, json, hmem, value, hread, rfl, rfl⟩

namespace Kind

/-- What a setting of the kind is. -/
abbrev Value : Kind → Type
  | texts => List String
  | flag => Bool
  | threshold => UInt64
  | aliases => Dict String
  | switches => Dict (Option Bool)

/-- The shape that a setting of the kind is read from. -/
def shape : Kind → Shape
  | texts => .array
  | flag => .boolean
  | threshold => .word
  | aliases => .object
  | switches => .object

/-- The setting that a value gives. -/
def read : (kind : Kind) → Json → Option kind.Value
  | texts, value => value.array?.map fun items => items.filterMap Json.string?
  | flag, value => value.bool?
  | threshold, value => value.natural?.bind fun n =>
      if h : n < UInt64.size then some (.ofNatLT n h) else none
  | aliases, value => value.object?.map (readEntries Json.string?)
  | switches, value => value.object?.map (readEntries ruleSwitch?)

/-- The places in a value that single entries are read from. -/
def IsEntry : Kind → List String → Prop
  | aliases, place => ∃ name, place = [name]
  | switches, place => ∃ id, place = [id] ∨ place = [id, "enabled"]
  | _, _ => False

theorem read_eq_none {kind : Kind} (h : ¬ kind.shape.Fits value) : kind.read value = none := by
  cases kind with
  | texts =>
      cases value with
      | array items => exact (h ⟨items, rfl⟩).elim
      | _ => rfl
  | flag =>
      cases value with
      | bool flag => exact (h ⟨flag, rfl⟩).elim
      | _ => rfl
  | threshold =>
      cases value with
      | natural n => exact dif_neg fun hn => h ⟨n, hn, rfl⟩
      | _ => rfl
  | aliases | switches =>
      cases value with
      | object members => exact (h ⟨members, rfl⟩).elim
      | _ => rfl

end Kind

/-- A setting: the path of keys that leads to it, and its part in all settings. -/
structure Setting where
  path : List String
  kind : Kind
  get : Config → kind.Value

/-- All settings. -/
def settings : List Setting :=
  [⟨["layerDirs"], .texts, layerDirs⟩,
   ⟨["ignoreDirs"], .texts, ignoreDirs⟩,
   ⟨["allowedExtensions"], .texts, allowedExtensions⟩,
   ⟨["defaultTsSuffixes"], .texts, defaultSuffixes⟩,
   ⟨["extraTsSuffixes"], .texts, extraSuffixes⟩,
   ⟨["interfaceAllowedGlobs"], .texts, declarationGlobs⟩,
   ⟨["pathAliases"], .aliases, pathAliases⟩,
   ⟨["nestedLayer", "enabled"], .flag, nestedLayer⟩,
   ⟨["singleUseGlobal", "enabled"], .flag, (·.sharedModules.enabled)⟩,
   ⟨["singleUseGlobal", "layers"], .texts, (·.sharedModules.layers)⟩,
   ⟨["singleUseGlobal", "minUpperModuleReferences"], .threshold,
    (·.sharedModules.leastConsumers)⟩,
   ⟨["namingConvention", "enabled"], .flag, namingConvention⟩,
   ⟨["layerDirectoryNaming", "enabled"], .flag, layerDirectoryNaming⟩,
   ⟨["moduleGrouping", "enabled"], .flag, moduleGrouping⟩,
   ⟨["pageOnlyRouterHook", "enabled"], .flag, (·.routerHooks.enabled)⟩,
   ⟨["pageOnlyRouterHook", "routerModules"], .texts, (·.routerHooks.routerModules)⟩,
   ⟨["syntaxAccelerator", "enabled"], .flag, syntaxAccelerator⟩,
   ⟨["rules"], .switches, rules⟩]

/-- A place at which a setting or an object of settings is looked for, and the shape that is
expected there. -/
inductive IsKey : List String → Shape → Prop where
  | setting {setting : Setting} (h : setting ∈ settings) : IsKey setting.path setting.kind.shape
  | group {setting : Setting} {path : List String} (h : setting ∈ settings) (hne : path ≠ [])
      (hpath : path <+: setting.path) (hproper : path ≠ setting.path) : IsKey path .object

/-- A place that some setting is read from: that of a key, or of an entry in a setting. -/
def IsRecognised (path : List String) : Prop :=
  (∃ shape, IsKey path shape) ∨
    ∃ setting ∈ settings, ∃ place, path = setting.path ++ place ∧ setting.kind.IsEntry place

/-- Settings that agree one by one are the same. -/
theorem eq_of_get_eq {first second : Config}
    (h : ∀ setting ∈ settings, setting.get first = setting.get second) : first = second := by
  obtain ⟨_, _, _, _, _, _, _, _, ⟨_, _, _⟩, _, _, _, ⟨_, _⟩, _, _⟩ := first
  obtain ⟨_, _, _, _, _, _, _, _, ⟨_, _, _⟩, _, _, _, ⟨_, _⟩, _, _⟩ := second
  simpa [settings, and_assoc] using h

/-- No setting is looked for inside another one. -/
theorem eq_of_prefix {setting other : Setting} (h : setting ∈ settings) (h' : other ∈ settings)
    (hpath : setting.path <+: other.path) :
    setting.path = other.path ∧ setting.kind = other.kind := by
  have hplaces : ∀ place ∈ settings.map fun setting => (setting.path, setting.kind),
      ∀ place' ∈ settings.map fun setting => (setting.path, setting.kind),
        place.1 <+: place'.1 → place = place' := by decide +kernel
  exact Prod.ext_iff.mp (hplaces _ (List.mem_map_of_mem h) _ (List.mem_map_of_mem h') hpath)

theorem path_ne_nil {setting : Setting} (h : setting ∈ settings) : setting.path ≠ [] := by
  have hplaces : ∀ path ∈ settings.map Setting.path, path ≠ [] := by decide +kernel
  exact hplaces _ (List.mem_map_of_mem h)

/-! ## Settings are read from their places -/

theorem strings?_eq_bind (members : Members) (key : String) :
    strings? members key = (lastOf? members key).bind Kind.texts.read := by
  rw [strings?, Option.map_bind]
  rfl

theorem flag?_eq_bind (members : Members) (key : String) :
    flag? members key = (lastOf? members key).bind Kind.flag.read := rfl

theorem natural?_eq_bind (members : Members) (key : String) :
    natural? members key = (lastOf? members key).bind Kind.threshold.read := by
  rw [natural?, Option.bind_assoc]
  rfl

theorem dict?_eq_bind {α : Type} (read : Json → Option α) (members : Members) (key : String) :
    dict? read members key =
      (lastOf? members key).bind fun value => value.object?.map (readEntries read) := by
  rw [dict?, object?, Option.map_bind]
  rfl

theorem follow_singleton (members : Members) (key : String) :
    follow [key] (some (.object members)) = lastOf? members key := rfl

theorem follow_pair (members : Members) (key inner : String) :
    follow [key, inner] (some (.object members)) =
      (object? members key).bind (lastOf? · inner) :=
  (Option.bind_assoc ..).symm

theorem switch?_eq_bind (members : Members) (key : String) : switch? members key =
    (follow [key, "enabled"] (some (.object members))).bind Kind.flag.read := by
  rw [follow_pair, Option.bind_assoc]
  rfl

theorem lastOf?_getD_object? (members : Members) (key inner : String) :
    lastOf? ((object? members key).getD []) inner =
      follow [key, inner] (some (.object members)) := by
  rw [follow_pair]
  cases object? members key <;> rfl

theorem get_ofMembers (members : Members) : ∀ setting ∈ settings, setting.get (ofMembers members) =
    ((follow setting.path (some (.object members))).bind setting.kind.read).getD
      (setting.get standard) := by
  simp only [settings, List.forall_mem_cons, ofMembers, sharedModulesOf, routerHooksOf,
    switch?_eq_bind, strings?_eq_bind, flag?_eq_bind, natural?_eq_bind, dict?_eq_bind,
    lastOf?_getD_object?, follow_singleton, true_and]
  exact ⟨rfl, rfl, List.forall_mem_nil _⟩

/-- A setting is read from its place, and at its default if nothing can be read there. -/
theorem get_ofJson (value : Json) {setting : Setting} (h : setting ∈ settings) :
    setting.get (ofJson value) =
      ((follow setting.path (some value)).bind setting.kind.read).getD (setting.get standard) := by
  obtain ⟨members, hvalue⟩ | hnone := Json.cases_object (some value)
  · obtain rfl := Option.some.inj hvalue
    exact get_ofMembers members setting h
  · obtain ⟨key, rest, hpath⟩ := List.exists_cons_of_ne_nil (path_ne_nil h)
    have hstandard : ofJson value = standard := by
      rw [ofJson, show value.object? = none from hnone]
    rw [hstandard, hpath, follow, Json.bind_get?_eq_none hnone, Json.follow_none]
    rfl

end LayerLint.Config
