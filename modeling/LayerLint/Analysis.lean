import LayerLint.Config.Load
import LayerLint.Report
import LayerLint.RuleBook
import LayerLint.Walk

/-! # Runs

A run makes the context of a root, lets rules look at it, and reports what they find.
-/

namespace LayerLint

/-- What a run is to do. -/
structure Analysis where
  /-- The directory to look at, which may be written in any form. -/
  root : Path
  config : Config
  /-- The settings file, if there is one to be named in the report. -/
  configPath : Option Path
  /-- Whether the settings were read from that file. -/
  configLoaded : Bool
  /-- Whether aliases are looked for in compiler settings. -/
  discover : Bool

/-- Why a run ends without a report. -/
inductive AnalysisError where
  /-- The root is no directory. -/
  | noRoot (path : Path)
  deriving Repr, DecidableEq

/-- The wording of an error. -/
def AnalysisError.message : AnalysisError → String
  | noRoot path => s!"root path is not an accessible directory: {path.text}"

/-- The violations that some rules report, in the order of the rules. -/
def Context.violations (context : Context) (rules : List Rule) : List Violation :=
  rules.flatMap (·.run context)

/-- The report of some rules on a context. -/
def Context.report (context : Context) (rules : List Rule) (configPath : String)
    (configLoaded : Bool) : Report :=
  .ofViolations (context.violations rules) context.candidates.length configPath configLoaded

namespace Analysis

/-- A run with given settings. -/
def ofConfig (root : Path) (config : Config) : Analysis :=
  ⟨root, config, none, false, true⟩

/-- A run with settings that were loaded. -/
def ofLoaded (root : Path) (loaded : LoadedConfig) : Analysis :=
  ⟨root, loaded.config, some loaded.path, loaded.loaded, true⟩

/-- The root in normal form. -/
def normalRoot (analysis : Analysis) : Path :=
  analysis.root.normalize

/-- The context of the run. -/
def context (analysis : Analysis) (tree : FileTree) : Except AnalysisError Context :=
  match Context.ofTree? tree analysis.normalRoot analysis.config analysis.discover with
  | some context => .ok context
  | none => .error (.noRoot analysis.normalRoot)

/-- The settings file as seen from the root. -/
def shownConfigPath (analysis : Analysis) : String :=
  (analysis.configPath.map analysis.normalRoot.relativeTo).getD ""

/-- The report of the run. -/
def run (analysis : Analysis) (tree : FileTree) (rules : List Rule) :
    Except AnalysisError Report :=
  (analysis.context tree).map fun context =>
    context.report rules analysis.shownConfigPath analysis.configLoaded

end Analysis

end LayerLint
