import LayerLint.Config.Json
import LayerLint.Proofs.Dict
import LayerLint.Proofs.Json.Pretty

/-! # Written settings are read back

Each setting is written under a key of its own, in the form in which it is looked for. So nothing is
lost when settings are written and read.
-/

namespace LayerLint.Config

open Json (IsWritable lastOf?)

variable {members : Members} {key : String} {room : Nat}

/-! ## What is written is valid -/

theorem isWritable_strings (values : List String) : IsWritable (room + 1) (.strings values) := by
  refine .array fun item hitem => ?_
  obtain ⟨value, -, rfl⟩ := List.mem_map.mp hitem
  exact .string value

theorem isWritable_switchJson (enabled : Bool) : IsWritable (room + 1) (switchJson enabled) :=
  .object fun member hmember => by
    rw [List.mem_singleton.mp hmember]
    exact .bool enabled

theorem isWritable_ruleSwitchJson (switch : Option Bool) :
    IsWritable (room + 1) (ruleSwitchJson switch) := by
  cases switch with
  | none => exact .object (List.forall_mem_nil _)
  | some enabled => exact isWritable_switchJson enabled

theorem isWritable_dict {α : Type} {write : α → Json} (h : ∀ value, IsWritable room (write value))
    (dict : Dict α) :
    IsWritable (room + 1) (.object (dict.toList.map fun entry => (entry.1, write entry.2))) := by
  refine .object fun member hmember => ?_
  obtain ⟨entry, -, rfl⟩ := List.mem_map.mp hmember
  exact h entry.2

theorem isWritable_toJson (config : Config) : IsWritable (room + 3) config.toJson := by
  have hleast : config.sharedModules.leastConsumers.toNat < Json.Numeral.wordLimit :=
    UInt64.toNat_lt_size _
  refine .object ?_
  simp only [List.forall_mem_cons, isWritable_strings, isWritable_switchJson, true_and]
  refine ⟨isWritable_dict .string _, .object ?_, .object ?_,
    isWritable_dict isWritable_ruleSwitchJson _, List.forall_mem_nil _⟩
  · simp only [List.forall_mem_cons, isWritable_strings, IsWritable.bool, true_and]
    exact ⟨.natural hleast, List.forall_mem_nil _⟩
  · simp only [List.forall_mem_cons, isWritable_strings, IsWritable.bool, true_and]
    exact List.forall_mem_nil _

/-! ## What is written is found -/

theorem strings?_eq {values : List String} (h : lastOf? members key = some (.strings values)) :
    strings? members key = some values := by
  rw [strings?, h, Json.strings]
  simp [Json.array?, List.filterMap_map, Function.comp_def, Json.string?]

theorem flag?_eq {value : Bool} (h : lastOf? members key = some (.bool value)) :
    flag? members key = some value := by
  rw [flag?, h]
  rfl

theorem natural?_eq {value : UInt64} (h : lastOf? members key = some (.natural value.toNat)) :
    natural? members key = some value := by
  rw [natural?, h]
  simp [Json.natural?, UInt64.toNat_lt_size]

theorem object?_eq {inner : Members} (h : lastOf? members key = some (.object inner)) :
    object? members key = some inner := by
  rw [object?, h]
  rfl

theorem switch?_eq {enabled : Bool} (h : lastOf? members key = some (switchJson enabled)) :
    switch? members key = some enabled := by
  rw [switch?, object?_eq h, Option.bind_some]
  exact flag?_eq rfl

theorem ruleSwitch?_ruleSwitchJson (switch : Option Bool) :
    ruleSwitch? (ruleSwitchJson switch) = some switch := by
  cases switch <;> rfl

theorem dict?_eq {α : Type} {read : Json → Option α} {write : α → Json} {dict : Dict α}
    (hread : ∀ value, read (write value) = some value)
    (h : lastOf? members key =
      some (.object (dict.toList.map fun entry => (entry.1, write entry.2)))) :
    dict? read members key = some dict := by
  -- the members are in the order of a dictionary, so none of them replaces another
  let written : Dict Json :=
    ⟨dict.toList.map fun entry => (entry.1, write entry.2), List.pairwise_map.mpr dict.sorted⟩
  have hwritten : Dict.ofList (dict.toList.map fun entry => (entry.1, write entry.2)) = written :=
    Dict.ofList_toList written
  rw [dict?, object?_eq h, Option.map_some, hwritten]
  simp [written, List.filterMap_map, hread, Dict.ofList_toList]

theorem getD_eq {α : Type} {found : Option α} {value : α} (h : found = some value) (default : α) :
    found.getD default = value := by
  rw [h, Option.getD_some]

/-- Every setting is found where it is written. -/
theorem ofJson_toJson (config : Config) : ofJson config.toJson = config := by
  have hshared : sharedModulesOf
      [("enabled", .bool config.sharedModules.enabled),
        ("layers", .strings config.sharedModules.layers),
        ("minUpperModuleReferences", .natural config.sharedModules.leastConsumers.toNat)]
      standard.sharedModules = config.sharedModules := by
    rw [sharedModulesOf, getD_eq (flag?_eq rfl), getD_eq (strings?_eq rfl),
      getD_eq (natural?_eq rfl)]
  have hrouter : routerHooksOf
      [("enabled", .bool config.routerHooks.enabled),
        ("routerModules", .strings config.routerHooks.routerModules)]
      standard.routerHooks = config.routerHooks := by
    rw [routerHooksOf, getD_eq (flag?_eq rfl), getD_eq (strings?_eq rfl)]
  have halias (value : String) : Json.string? (.string value) = some value := rfl
  change ofMembers _ = Config.mk _ _ _ _ _ _ _ _ _ _ _ _ _ _ _
  rw [ofMembers, Config.mk.injEq]
  exact ⟨getD_eq (strings?_eq rfl) _, getD_eq (strings?_eq rfl) _, getD_eq (strings?_eq rfl) _,
    getD_eq (strings?_eq rfl) _, getD_eq (strings?_eq rfl) _, getD_eq (strings?_eq rfl) _,
    getD_eq (dict?_eq halias rfl) _, getD_eq (switch?_eq rfl) _,
    by rw [getD_eq (object?_eq rfl)]; exact hshared, getD_eq (switch?_eq rfl) _,
    getD_eq (switch?_eq rfl) _, getD_eq (switch?_eq rfl) _,
    by rw [getD_eq (object?_eq rfl)]; exact hrouter, getD_eq (switch?_eq rfl) _,
    getD_eq (dict?_eq ruleSwitch?_ruleSwitchJson rfl) _⟩

/-- Settings are read back from the text that they are written as, whatever blanks stand behind
it. -/
theorem parse_pretty_append (config : Config) {spaces : String}
    (hspaces : ∀ c ∈ spaces.toList, Json.Token.isSpace c = true) :
    parse (config.toJson.pretty ++ spaces) = .ok config := by
  have hwritable : IsWritable Json.Reader.depthLimit config.toJson := isWritable_toJson config
  rw [parse, Json.parse?_pretty_append hwritable hspaces]
  exact congrArg Except.ok (ofJson_toJson config)

/-- All settings are read back from the text that they are written as. -/
theorem parse_pretty (config : Config) : parse config.toJson.pretty = .ok config := by
  have hread : parse (config.toJson.pretty ++ "") = .ok config :=
    config.parse_pretty_append (by simp)
  rwa [String.append_empty] at hread

end LayerLint.Config
