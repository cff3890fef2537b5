import LayerLint.Proofs.Report
import LayerLint.Proofs.Rule.Signature
import LayerLint.Proofs.Walk

/-! # Switching rules off

What a rule finds depends on no switch, neither on its own ones nor on those of other rules. So a
rule that is switched off, or that is not run, takes its own violations out of a report and changes
nothing else. It does not matter by which of its switches a rule is switched off.
-/

namespace LayerLint

/-! ## Switches -/

namespace Config

/-- The settings with every switch on. -/
def switchedOn (config : Config) : Config :=
  { config with
    nestedLayer := true
    sharedModules := { config.sharedModules with enabled := true }
    namingConvention := true
    layerDirectoryNaming := true
    moduleGrouping := true
    routerHooks := { config.routerHooks with enabled := true }
    rules := .empty }

/-- The settings with some rules switched off by their identifiers. -/
def switchOff (config : Config) (ids : List String) : Config :=
  { config with rules := ids.foldl (fun rules id => rules.insert id (some false)) config.rules }

variable (config : Config) (ids : List String)

theorem get?_foldl_insert_off (rules : Dict (Option Bool)) (id : String) :
    (ids.foldl (fun rules id => rules.insert id (some false)) rules).get? id =
      if id ∈ ids then some (some false) else rules.get? id := by
  induction ids generalizing rules with
  | nil => simp
  | cons first rest ih =>
      rw [List.foldl_cons, ih, Dict.get?_insert]
      by_cases hrest : id ∈ rest
      · simp [hrest]
      · simp [hrest, List.mem_cons]

theorem isRuleEnabled_switchOff (id : String) :
    (config.switchOff ids).isRuleEnabled id = (config.isRuleEnabled id && !ids.contains id) := by
  rw [isRuleEnabled, switchOff, get?_foldl_insert_off]
  by_cases hid : id ∈ ids
  · simp [hid]
  · simp [hid, isRuleEnabled]

theorem switchedOn_switchOff : (config.switchOff ids).switchedOn = config.switchedOn := rfl

end Config

namespace Rule

/-- A switch that a rule has besides the one by its identifier. -/
inductive OwnSwitch where
  | nestedLayer
  | sharedModules
  | namingConvention
  | layerDirectoryNaming
  | moduleGrouping
  | routerHooks
  deriving Repr, DecidableEq

namespace OwnSwitch

/-- The identifier of the rule that the switch belongs to. -/
def rule : OwnSwitch → String
  | nestedLayer => "FLA005"
  | sharedModules => "FLA006"
  | namingConvention => "FLA007"
  | layerDirectoryNaming => "FLA008"
  | moduleGrouping => "FLA009"
  | routerHooks => "FLA010"

/-- The settings with the switch off. -/
def off (config : Config) : OwnSwitch → Config
  | nestedLayer => { config with nestedLayer := false }
  | sharedModules => { config with sharedModules := { config.sharedModules with enabled := false } }
  | namingConvention => { config with namingConvention := false }
  | layerDirectoryNaming => { config with layerDirectoryNaming := false }
  | moduleGrouping => { config with moduleGrouping := false }
  | routerHooks => { config with routerHooks := { config.routerHooks with enabled := false } }

variable {rule : Rule} (config : Config) (switch : OwnSwitch)

theorem switchedOn_off : (switch.off config).switchedOn = config.switchedOn := by
  cases switch <;> rfl

theorem isRuleEnabled_off (id : String) :
    (switch.off config).isRuleEnabled id = config.isRuleEnabled id := by
  cases switch <;> rfl

/-- Of the rules of the rule book, the switch affects the one that it belongs to. -/
theorem isOn_off (h : rule ∈ ruleBook) :
    rule.isOn (switch.off config) = (rule.isOn config && rule.id != switch.rule) := by
  simp only [ruleBook, List.mem_cons, List.not_mem_nil, or_false] at h
  rcases h with rfl | rfl | rfl | rfl | rfl | rfl | rfl | rfl | rfl | rfl <;> cases switch <;>
    first | exact (Bool.and_true _).symm | exact (Bool.and_false _).symm

end OwnSwitch

variable {rule : Rule} {context : Context} {config : Config}

theorem isOn_switchOff (h : rule ∈ ruleBook) (config : Config) (ids : List String) :
    rule.isOn (config.switchOff ids) = rule.isOn config := by
  simp only [ruleBook, List.mem_cons, List.not_mem_nil, or_false] at h
  rcases h with rfl | rfl | rfl | rfl | rfl | rfl | rfl | rfl | rfl | rfl <;> rfl

theorem isEnabled_switchOff (h : rule ∈ ruleBook) (config : Config) (ids : List String) :
    rule.isEnabled (config.switchOff ids) = (rule.isEnabled config && !ids.contains rule.id) := by
  rw [isEnabled, isEnabled, isOn_switchOff h, Config.isRuleEnabled_switchOff, Bool.and_assoc]

/-- A rule's own switch switches it off like its identifier does. -/
theorem isEnabled_off (h : rule ∈ ruleBook) (config : Config) (switch : OwnSwitch) :
    rule.isEnabled (switch.off config) = rule.isEnabled (config.switchOff [switch.rule]) := by
  rw [isEnabled_switchOff h, isEnabled, isEnabled, OwnSwitch.isOn_off config switch h,
    OwnSwitch.isRuleEnabled_off, Bool.and_right_comm, List.contains_cons, List.contains_nil,
    Bool.or_false, bne]

end Rule

/-! ## What rules find under other settings -/

/-- The context with other settings. -/
def Context.withConfig (context : Context) (config : Config) : Context :=
  { context with config }

theorem ImportEdge.allFrom_switchedOn (context : Context) (path : Path) (text : String) :
    allFrom (context.withConfig context.config.switchedOn) path text =
      allFrom context path text := by
  have hplacement : (context.withConfig context.config.switchedOn).placement? =
      context.placement? := rfl
  have hreference : ofReference? (context.withConfig context.config.switchedOn) path =
      ofReference? context path := rfl
  unfold allFrom
  rw [hplacement, hreference]

namespace Rule

variable {rule : Rule} {context : Context} {config : Config}

/-- What the rule finds does not depend on switches. -/
def IgnoresSwitches (rule : Rule) : Prop :=
  ∀ context : Context,
    rule.findings (context.withConfig context.config.switchedOn) = rule.findings context

theorem ignoresSwitches_layerDirection : layerDirection.IgnoresSwitches := by
  intro context
  apply List.flatMap_congr
  intro path _
  rw [LayerDirection.check, LayerDirection.check, ImportEdge.allFrom_switchedOn]
  rfl

theorem ignoresSwitches_routerHook : routerHook.IgnoresSwitches := by
  intro context
  apply List.flatMap_congr
  intro path _
  simp only [RouterHook.check]
  rfl

theorem ignoresSwitches_sharedModule : sharedModule.IgnoresSwitches := by
  intro context
  have hfiles : SharedModule.firstFiles (context.withConfig context.config.switchedOn) =
      SharedModule.firstFiles context := rfl
  have hedges : SharedModule.edges (context.withConfig context.config.switchedOn) =
      SharedModule.edges context := by
    apply List.flatMap_congr
    intro path _
    exact ImportEdge.allFrom_switchedOn context path _
  have hcount : SharedModule.count (context.withConfig context.config.switchedOn).config =
      SharedModule.count context.config := rfl
  have hplaced : SharedModule.isPlacedWell (context.withConfig context.config.switchedOn).config =
      SharedModule.isPlacedWell context.config := rfl
  rw [findings, findings, sharedModule]
  simp only [SharedModule.check, SharedModule.usages, hfiles, hedges, hcount, hplaced]

/-- No rule of the rule book looks at a switch. -/
theorem ignoresSwitches_of_mem_ruleBook (h : rule ∈ ruleBook) : rule.IgnoresSwitches := by
  simp only [ruleBook, List.mem_cons, List.not_mem_nil, or_false] at h
  -- the rules in the order of the rule book; most read their own tables only
  rcases h with rfl | rfl | rfl | rfl | rfl | rfl | rfl | rfl | rfl | rfl
  · exact fun _ => rfl
  · exact fun _ => rfl
  · exact ignoresSwitches_layerDirection
  · exact fun _ => rfl
  · exact ignoresSwitches_routerHook
  · exact fun _ => rfl
  · exact ignoresSwitches_sharedModule
  · exact fun _ => rfl
  · exact fun _ => rfl
  · exact fun _ => rfl

/-- Under settings that differ in switches only, a rule finds the same. -/
theorem findings_withConfig (h : rule ∈ ruleBook)
    (hconfig : config.switchedOn = context.config.switchedOn) :
    rule.findings (context.withConfig config) = rule.findings context := by
  have hignores := ignoresSwitches_of_mem_ruleBook h
  have hsame : (context.withConfig config).withConfig config.switchedOn =
      context.withConfig context.config.switchedOn := by
    rw [hconfig]
    rfl
  calc rule.findings (context.withConfig config)
      = rule.findings ((context.withConfig config).withConfig config.switchedOn) :=
        (hignores (context.withConfig config)).symm
    _ = rule.findings (context.withConfig context.config.switchedOn) := by rw [hsame]
    _ = rule.findings context := hignores context

/-- A rule whose identifier is switched off reports nothing, and any other what it did before. -/
theorem run_switchOff (h : rule ∈ ruleBook) (context : Context) (ids : List String) :
    rule.run (context.withConfig (context.config.switchOff ids)) =
      (rule.run context).filter fun violation => !ids.contains violation.rule := by
  rw [(signs_of_mem_ruleBook h).filter_run context fun id => !ids.contains id, run_eq, run_eq,
    findings_withConfig h (Config.switchedOn_switchOff context.config ids), Context.withConfig,
    isEnabled_switchOff h, Bool.and_comm]
  cases ids.contains rule.id <;> rfl

/-- It does not matter by which of its switches a rule is switched off. -/
theorem run_off (h : rule ∈ ruleBook) (context : Context) (switch : OwnSwitch) :
    rule.run (context.withConfig (switch.off context.config)) =
      rule.run (context.withConfig (context.config.switchOff [switch.rule])) := by
  rw [run_eq, run_eq, findings_withConfig h (OwnSwitch.switchedOn_off context.config switch),
    findings_withConfig h (Config.switchedOn_switchOff context.config _), Context.withConfig,
    Context.withConfig, isEnabled_off h]

theorem flatMap_filter (chosen : Rule → Bool) (report : Rule → List Violation)
    (rules : List Rule) :
    (rules.filter chosen).flatMap report =
      rules.flatMap fun rule => if chosen rule then report rule else [] := by
  induction rules with
  | nil => rfl
  | cons rule rest ih =>
      rw [List.filter_cons, List.flatMap_cons, ← ih]
      split <;> rfl

end Rule

namespace Context

variable (context : Context) (chosen : Rule → Bool)

theorem violations_switchOff (ids : List String) :
    (context.withConfig (context.config.switchOff ids)).violations (ruleBook.filter chosen) =
      (context.violations (ruleBook.filter chosen)).filter
        fun violation => !ids.contains violation.rule := by
  rw [violations, violations, List.filter_flatMap]
  apply List.flatMap_congr
  intro rule hrule
  exact Rule.run_switchOff (List.mem_of_mem_filter hrule) context ids

theorem violations_off (switch : Rule.OwnSwitch) :
    (context.withConfig (switch.off context.config)).violations (ruleBook.filter chosen) =
      (context.withConfig (context.config.switchOff [switch.rule])).violations
        (ruleBook.filter chosen) := by
  apply List.flatMap_congr
  intro rule hrule
  exact Rule.run_off (List.mem_of_mem_filter hrule) context switch

theorem violations_filter :
    context.violations (ruleBook.filter chosen) =
      (context.violations ruleBook).filter fun violation =>
        ((ruleBook.filter chosen).map Rule.id).contains violation.rule := by
  rw [violations, violations, Rule.flatMap_filter, List.filter_flatMap]
  apply List.flatMap_congr
  intro rule hrule
  rw [(Rule.signs_of_mem_ruleBook hrule).filter_run, Rule.contains_ids hrule]

theorem inLayerScope_withConfig {config : Config}
    (hconfig : config.switchedOn = context.config.switchedOn) (relative : String) :
    (context.withConfig config).inLayerScope relative = context.inLayerScope relative := by
  have hlayers : config.layerDirs = context.config.layerDirs := by
    change config.switchedOn.layerDirs = context.config.switchedOn.layerDirs
    rw [hconfig]
  rw [inLayerScope, inLayerScope, ← hlayers]
  rfl

theorem candidates_withConfig {config : Config}
    (hconfig : config.switchedOn = context.config.switchedOn) :
    (context.withConfig config).candidates = context.candidates := by
  apply List.filter_congr
  intro path _
  exact inLayerScope_withConfig context hconfig (context.relative path)

/-! ## Runs with other settings -/

section Runs

variable {context} {config other : Config}

theorem withTexts_withConfig (hconfig : config.switchedOn = context.config.switchedOn)
    (listed : List (Path × FileTree)) :
    (context.withConfig config).withTexts listed = (context.withTexts listed).withConfig config := by
  induction listed generalizing context with
  | nil => rfl
  | cons entry rest ih =>
      obtain ⟨path, bytes | entries⟩ := entry
      · have hscope : (context.withConfig config).inLayerScope
            ((context.withConfig config).relative path) =
              context.inLayerScope (context.relative path) :=
          inLayerScope_withConfig context hconfig (context.relative path)
        rw [withTexts_cons_file, withTexts_cons_file, hscope]
        by_cases hread : (path.isSource && context.inLayerScope (context.relative path)) = true
        · rw [if_pos hread, if_pos hread]
          have hread : config.switchedOn =
              (context.withText path (Text.decodeForgiving bytes)).config.switchedOn := hconfig
          exact ih hread
        · rw [if_neg hread, if_neg hread, ih hconfig]
      · exact ih hconfig

theorem withListed_withConfig (hconfig : config.switchedOn = context.config.switchedOn)
    (listed : List (Path × FileTree)) :
    (context.withConfig config).withListed listed =
      (context.withListed listed).withConfig config := by
  have hentries : config.switchedOn = (context.withEntries
      ((listed.filter fun entry => !entry.2.isDirectory).map Prod.fst)
      ((listed.filter fun entry => entry.2.isDirectory).map Prod.fst)).config.switchedOn := hconfig
  exact withTexts_withConfig hentries _

/-- Settings that differ in switches only have one context, but for the settings. -/
theorem ofTree?_withConfig (hconfig : config.switchedOn = other.switchedOn) (tree : FileTree)
    (root : Path) (discover : Bool) :
    ofTree? tree root config discover =
      (ofTree? tree root other discover).map (·.withConfig config) := by
  have hignored : config.ignoreDirs = other.ignoreDirs := by
    change config.switchedOn.ignoreDirs = other.switchedOn.ignoreDirs
    rw [hconfig]
  have haliases : config.pathAliases = other.pathAliases := by
    change config.switchedOn.pathAliases = other.switchedOn.pathAliases
    rw [hconfig]
  have hprepared : prepared tree root config discover =
      (prepared tree root other discover).withConfig config := by
    cases discover <;> simp [prepared, ofConfig, withDiscovered, withConfig, haliases]
  have hbefore : config.switchedOn = (prepared tree root other discover).config.switchedOn := by
    cases discover <;> exact hconfig
  cases hfind : tree.find? root with
  | none => simp [ofTree?, hfind]
  | some node =>
      cases node with
      | file bytes => simp [ofTree?, hfind]
      | directory entries =>
          rw [ofTree?_eq hfind, ofTree?_eq hfind, Option.map_some, hprepared, hignored]
          exact congrArg some (withListed_withConfig hbefore _)

theorem context_eq_elim (analysis : Analysis) (tree : FileTree) :
    analysis.context tree =
      (ofTree? tree analysis.root.normalize analysis.config analysis.discover).elim
        (.error (.noRoot analysis.root.normalize)) .ok := by
  unfold Analysis.context Analysis.normalRoot
  cases ofTree? tree analysis.root.normalize analysis.config analysis.discover <;> rfl

/-- A run under settings that differ in switches only looks at the same context. -/
theorem run_withConfig (analysis : Analysis)
    (hconfig : config.switchedOn = analysis.config.switchedOn) (tree : FileTree)
    (rules : List Rule) :
    { analysis with config }.run tree rules =
      (analysis.context tree).map fun context =>
        (context.withConfig config).report rules analysis.shownConfigPath analysis.configLoaded := by
  have hpath : { analysis with config }.shownConfigPath = analysis.shownConfigPath := rfl
  have hcontext := ofTree?_withConfig hconfig tree analysis.root.normalize analysis.discover
  rw [Analysis.run, context_eq_elim, context_eq_elim, hpath]
  dsimp only
  rw [hcontext]
  -- the reports are compared as they stand: opening them would take too long
  cases ofTree? tree analysis.root.normalize analysis.config analysis.discover <;>
    simp only [Option.map_none, Option.map_some, Option.elim_none, Option.elim_some, Except.map]

theorem config_of_context {analysis : Analysis} {tree : FileTree}
    (h : analysis.context tree = .ok context) : context.config = analysis.config := by
  rw [context_eq_elim] at h
  cases hfind : tree.find? analysis.root.normalize with
  | none => simp [ofTree?, hfind] at h
  | some node =>
      cases node with
      | file bytes => simp [ofTree?, hfind] at h
      | directory entries =>
          rw [ofTree?_eq hfind, Option.elim_some, Except.ok.injEq] at h
          rw [← h, config_withListed, config_prepared]

end Runs

theorem report_switchOff (ids : List String) (configPath : String) (configLoaded : Bool) :
    (context.withConfig (context.config.switchOff ids)).report (ruleBook.filter chosen) configPath
        configLoaded =
      (context.report (ruleBook.filter chosen) configPath configLoaded).restrict
        fun id => !ids.contains id := by
  rw [report, report, violations_switchOff,
    candidates_withConfig context (Config.switchedOn_switchOff context.config ids)]
  exact Report.ofViolations_filter _ (fun id => !ids.contains id) _ _ _

end Context

end LayerLint
