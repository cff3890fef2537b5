import LayerLint.Proofs.Config.Settings

/-! # Changes of settings

A change at a place that settings are looked for at changes these settings and no others; what does
not fit there leaves them at their defaults, as if nothing stood there. A change at any other place
changes nothing.
-/

namespace LayerLint.Config

open Json (follow put lastOf?)

variable {value : Json} {change : Option Json} {path place : List String}

/-! ## Changes that are not seen -/

/-- What cannot be read from an object is not changed inside one. -/
theorem bind_put_of_object {α : Type} {read : Json → Option α}
    (hread : ∀ members, read (.object members) = none) (hne : place ≠ []) (value : Option Json) :
    (put change place value).bind read = value.bind read := by
  obtain ⟨key, rest, rfl⟩ := List.exists_cons_of_ne_nil hne
  obtain ⟨members, rfl⟩ | hnone := Json.cases_object value
  · exact (hread _).trans (hread members).symm
  · rw [Json.put_eq_self hne hnone]

/-- Entries are read alike if the changed one is. -/
theorem bind_readEntries_put {α : Type} {read : Json → Option α} {rest : List String}
    (hread : ∀ value, (put change rest value).bind read = value.bind read) (key : String)
    (value : Option Json) :
    ((put change (key :: rest) value).bind fun value => value.object?.map (readEntries read)) =
      value.bind fun value => value.object?.map (readEntries read) := by
  obtain ⟨members, rfl⟩ | hnone := Json.cases_object value
  · refine congrArg some (Dict.eq_of_get?_eq fun name => ?_)
    rw [get?_readEntries, get?_readEntries, Json.lastOf?_setMember]
    by_cases hname : name = key
    · rw [if_pos hname, hread, hname]
    · rw [if_neg hname]
  · rw [Json.put_eq_self (List.cons_ne_nil key rest) hnone]

theorem bind_ruleSwitch?_put (hne : place ≠ []) (henabled : place ≠ ["enabled"])
    (value : Option Json) : (put change place value).bind ruleSwitch? = value.bind ruleSwitch? := by
  obtain ⟨key, rest, rfl⟩ := List.exists_cons_of_ne_nil hne
  obtain ⟨members, rfl⟩ | hnone := Json.cases_object value
  · have hflag : flag? (Json.setMember members key (put change rest (lastOf? members key)))
        "enabled" = flag? members "enabled" := by
      rw [flag?_eq_bind, flag?_eq_bind, Json.lastOf?_setMember]
      by_cases hkey : "enabled" = key
      · subst hkey
        have hrest : rest ≠ [] := fun hnil => henabled (by rw [hnil])
        rw [if_pos rfl, bind_put_of_object (fun _ => rfl) hrest]
      · rw [if_neg hkey]
    exact congrArg some hflag
  · rw [Json.put_eq_self hne hnone]

/-- A setting is read from the whole of a value and from its entries, and a change at any other
place inside is not seen. -/
theorem Kind.bind_read_put (kind : Kind) (hne : place ≠ []) (hentry : ¬ kind.IsEntry place)
    (value : Option Json) : (put change place value).bind kind.read = value.bind kind.read := by
  obtain ⟨key, rest, rfl⟩ := List.exists_cons_of_ne_nil hne
  cases kind with
  | texts | flag | threshold => exact bind_put_of_object (fun _ => rfl) hne value
  | aliases =>
      have hrest : rest ≠ [] := fun hnil => hentry ⟨key, by rw [hnil]⟩
      exact bind_readEntries_put (bind_put_of_object (fun _ => rfl) hrest) key value
  | switches =>
      have hrest : rest ≠ [] := fun hnil => hentry ⟨key, .inl (by rw [hnil])⟩
      have henabled : rest ≠ ["enabled"] := fun heq => hentry ⟨key, .inr (by rw [heq])⟩
      exact bind_readEntries_put (bind_ruleSwitch?_put hrest henabled) key value

/-! ## Changes at a key -/

namespace IsKey

variable {shape : Shape} {setting : Setting}

theorem ne_nil (h : IsKey path shape) : path ≠ [] := by
  cases h with
  | setting hsetting => exact path_ne_nil hsetting
  | group _ hne => exact hne

theorem exists_prefix (h : IsKey path shape) : ∃ setting ∈ settings, path <+: setting.path := by
  cases h with
  | setting hsetting => exact ⟨_, hsetting, List.prefix_rfl⟩
  | group hsetting _ hpath => exact ⟨_, hsetting, hpath⟩

/-- No key leads into a setting. -/
theorem eq_of_prefix (h : IsKey path shape) (hsetting : setting ∈ settings)
    (hpath : setting.path <+: path) : path = setting.path := by
  cases h with
  | setting hother => exact (Config.eq_of_prefix hsetting hother hpath).1.symm
  | group hother _ hinner =>
      have hsame := (Config.eq_of_prefix hsetting hother (hpath.trans hinner)).1
      exact (hsame ▸ hinner).eq_of_length_le hpath.length_le

theorem shape_of_prefix (h : IsKey path shape) (hsetting : setting ∈ settings)
    (hpath : path <+: setting.path) :
    (path = setting.path ∧ shape = setting.kind.shape) ∨
      (path ≠ setting.path ∧ shape = .object) := by
  cases h with
  | setting hother =>
      obtain ⟨hsame, hkind⟩ := Config.eq_of_prefix hother hsetting hpath
      exact .inl ⟨hsame, by rw [hkind]⟩
  | group hother _ hinner hproper =>
      refine .inr ⟨fun hsame => hproper ?_, rfl⟩
      subst hsame
      exact (Config.eq_of_prefix hsetting hother hinner).1

/-- Nothing can be read behind a key that is taken out or holds what does not fit. -/
theorem bind_read_eq_none (h : IsKey path shape) (hsetting : setting ∈ settings)
    (hpath : path <+: setting.path) (hchange : ∀ new ∈ change, ¬ shape.Fits new) :
    (follow setting.path (put change path (some value))).bind setting.kind.read = none := by
  have hshape := h.shape_of_prefix hsetting hpath
  obtain ⟨behind, hbehind⟩ := hpath
  have hread : (follow behind change).bind setting.kind.read = none := by
    cases change with
    | none => rw [Json.follow_none, Option.bind_none]
    | some new =>
        have hfits := hchange new rfl
        obtain ⟨hsame, rfl⟩ | ⟨hother, rfl⟩ := hshape
        · obtain rfl : behind = [] := by simpa [hsame] using hbehind
          exact Kind.read_eq_none hfits
        · obtain ⟨key, rest, rfl⟩ := List.exists_cons_of_ne_nil fun hnil : behind = [] =>
            hother (by rw [← hbehind, hnil, List.append_nil])
          have hnone := (Json.cases_object (some new)).resolve_left fun ⟨members, hnew⟩ =>
            hfits ⟨members, Option.some.inj hnew⟩
          rw [follow, Json.bind_get?_eq_none hnone, Json.follow_none, Option.bind_none]
  rw [← hbehind]
  obtain hfound | hnone := Json.follow_put_append change path behind (some value)
  · rw [hfound, hread]
  · rw [hnone, Option.bind_none]

end IsKey

theorem get_edit_of_not_prefix {shape : Shape} {setting : Setting} (h : IsKey path shape)
    (hsetting : setting ∈ settings) (hpath : ¬ path <+: setting.path) :
    setting.get (ofJson (value.edit path change)) = setting.get (ofJson value) := by
  have hpath' : ¬ setting.path <+: path := fun hinner =>
    hpath (h.eq_of_prefix hsetting hinner ▸ List.prefix_rfl)
  rw [get_ofJson _ hsetting, get_ofJson _ hsetting, Json.some_edit value h.ne_nil,
    Json.follow_put_of_not_prefix hpath hpath']

/-- Behind the path settings are at their defaults, and elsewhere they are as before. -/
def IsReset (path : List String) (before after : Config) : Prop :=
  ∀ setting ∈ settings, setting.get after =
    if path <+: setting.path then setting.get standard else setting.get before

theorem IsReset.eq {before first second : Config} (h : IsReset path before first)
    (h' : IsReset path before second) : first = second :=
  eq_of_get_eq fun setting hsetting => (h setting hsetting).trans (h' setting hsetting).symm

theorem isReset_edit {shape : Shape} (h : IsKey path shape)
    (hchange : ∀ new ∈ change, ¬ shape.Fits new) :
    IsReset path (ofJson value) (ofJson (value.edit path change)) := by
  intro setting hsetting
  by_cases hpath : path <+: setting.path
  · rw [if_pos hpath, get_ofJson _ hsetting, Json.some_edit value h.ne_nil,
      h.bind_read_eq_none hsetting hpath hchange, Option.getD_none]
  · rw [if_neg hpath, get_edit_of_not_prefix h hsetting hpath]

theorem get_edit_of_read {setting : Setting} {new : Json} {read : setting.kind.Value}
    (hsetting : setting ∈ settings) (hfound : follow setting.path (some value) ≠ none)
    (hread : setting.kind.read new = some read) :
    setting.get (ofJson (value.edit setting.path (some new))) = read := by
  rw [get_ofJson _ hsetting, Json.some_edit value (path_ne_nil hsetting),
    Json.follow_put_self hfound, Option.bind_some, hread, Option.getD_some]

theorem ofJson_edit_of_not_recognised (hne : path ≠ []) (h : ¬ IsRecognised path) :
    ofJson (value.edit path change) = ofJson value := by
  refine eq_of_get_eq fun setting hsetting => ?_
  rw [get_ofJson _ hsetting, get_ofJson _ hsetting, Json.some_edit value hne]
  congr 1
  by_cases hinner : setting.path <+: path
  · -- the change is made inside the setting
    obtain ⟨place, rfl⟩ := hinner
    have hplace : place ≠ [] := by
      rintro rfl
      rw [List.append_nil] at h
      exact h (.inl ⟨_, .setting hsetting⟩)
    rw [Json.follow_put_above _ hplace]
    exact setting.kind.bind_read_put hplace
      (fun hentry => h (.inr ⟨setting, hsetting, place, rfl, hentry⟩)) _
  · have houter : ¬ path <+: setting.path := fun hpath =>
      h (.inl ⟨_, .group hsetting hne hpath fun hsame => hinner (hsame ▸ List.prefix_rfl)⟩)
    rw [Json.follow_put_of_not_prefix houter hinner]

/-- No value is refused, and one that is no object gives the defaults. A key that is taken out, or
holds what does not fit there, resets the settings behind it and does nothing else; whatever it
holds, all other settings are as they were. What fits is read. A change at a place that is not
looked at changes nothing. -/
theorem ofJson_of_edit (value : Json) :
    (∀ text, Json.parse? text = some value → parse text = .ok (ofJson value)) ∧
      (value.object? = none → ofJson value = standard) ∧
      (∀ path shape, IsKey path shape → ∀ change : Option Json,
        (∀ setting ∈ settings, ¬ path <+: setting.path →
          setting.get (ofJson (value.edit path change)) = setting.get (ofJson value)) ∧
        ((∀ new ∈ change, ¬ shape.Fits new) → ∀ config,
          config = ofJson (value.edit path change) ↔ IsReset path (ofJson value) config)) ∧
      (∀ setting ∈ settings, follow setting.path (some value) ≠ none → ∀ new read,
        setting.kind.read new = some read →
          setting.get (ofJson (value.edit setting.path (some new))) = read) ∧
      ∀ path ≠ [], ¬ IsRecognised path → ∀ change,
        ofJson (value.edit path change) = ofJson value := by
  refine ⟨?_, ?_, ?_, ?_, ?_⟩
  · intro text htext
    rw [parse, htext]
  · intro hnone
    rw [ofJson, hnone]
  · intro path shape h change
    refine ⟨fun setting hsetting hpath => get_edit_of_not_prefix h hsetting hpath, ?_⟩
    intro hchange config
    have hreset : IsReset path (ofJson value) _ := isReset_edit h hchange
    exact ⟨fun heq => heq ▸ hreset, fun hconfig => hconfig.eq hreset⟩
  · intro setting hsetting hfound new read hread
    exact get_edit_of_read hsetting hfound hread
  · intro path hne h change
    exact ofJson_edit_of_not_recognised hne h

/-- A text in place of a list of layers puts the default back, and the threshold beside it stays.
Another list is read, and a key that is misspelt says nothing. -/
theorem ofJson_of_edit_of_shared_modules :
    let value : Json := .object [("layerDirs", .strings ["_views"]), ("singleUseGlobal",
      .object [("layers", .strings ["_views"]), ("minUpperModuleReferences", .natural 3)])]
    let path := ["singleUseGlobal", "layers"]
    let other := value.edit path (some (.strings ["_apis"]))
    let reset : Config := { layerDirs := ["_views"], sharedModules := { leastConsumers := 3 } }
    (Json.parse? "[]" = some (.array []) ∧ parse "[]" = .ok (ofJson (.array []))) ∧
      ((Json.array []).object? = none ∧ ofJson (.array []) = standard) ∧
      (IsKey path .array ∧ ¬ Shape.array.Fits (.string "_views") ∧
        reset = ofJson (value.edit path (some (.string "_views"))) ∧
        IsReset path (ofJson value) reset) ∧
      (follow path (some value) ≠ none ∧ (ofJson other).sharedModules.layers = ["_apis"] ∧
        (ofJson other).sharedModules.leastConsumers = 3) ∧
      (¬ IsRecognised ["singleUseGlobal", "layer"] ∧
        ofJson (value.edit ["singleUseGlobal", "layer"] (some .null)) = ofJson value) := by
  intro value path other reset
  have hlayers : settings[9] ∈ settings := List.getElem_mem _
  have hleast : settings[10] ∈ settings := List.getElem_mem _
  have hkey : IsKey path .array := .setting hlayers
  have hunfit : ¬ Shape.array.Fits (.string "_views") := by
    rintro ⟨_, heq⟩
    cases heq
  have hreset : reset = ofJson (value.edit path (some (.string "_views"))) := by decide +kernel
  have hfound : follow path (some value) ≠ none := by decide +kernel
  have hmisspelt : ¬ IsRecognised ["singleUseGlobal", "layer"] := by
    have hpaths : ∀ known ∈ settings.map Setting.path, ¬ ["singleUseGlobal", "layer"] <+: known ∧
        ¬ known <+: ["singleUseGlobal", "layer"] := by decide +kernel
    rintro (⟨shape, h⟩ | ⟨setting, hsetting, place, heq, -⟩)
    · obtain ⟨setting, hsetting, hpath⟩ := h.exists_prefix
      exact (hpaths _ (List.mem_map_of_mem hsetting)).1 hpath
    · exact (hpaths _ (List.mem_map_of_mem hsetting)).2 ⟨place, heq.symm⟩
  have hempty : Json.parse? "[]" = some (.array []) := by cbv
  obtain ⟨hparse, hdefaults, -⟩ := ofJson_of_edit (.array [])
  obtain ⟨-, -, hkeys, hread, hunseen⟩ := ofJson_of_edit value
  have hchanged := (hkeys path .array hkey (some (.string "_views"))).2
  exact ⟨⟨hempty, hparse _ hempty⟩, ⟨rfl, hdefaults rfl⟩,
    ⟨hkey, hunfit, hreset, (hchanged (by simpa using hunfit) reset).mp hreset⟩,
    ⟨hfound, hread _ hlayers hfound (.strings ["_apis"]) ["_apis"] rfl,
      (hkeys path .array hkey (some (.strings ["_apis"]))).1 _ hleast (by decide)⟩,
    ⟨hmisspelt, hunseen _ (by decide) hmisspelt _⟩⟩

end LayerLint.Config
