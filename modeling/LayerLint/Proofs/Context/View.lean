import LayerLint.Analysis
import LayerLint.Proofs.Context.Listing

/-! # What rules see of a context

Each rule of the rule book sees the settings, the walked directories, the files below layers with
their texts, and what stands in directories that are named like layers. Two contexts in which these
are the same have the same violations.
-/

namespace LayerLint

/-- Nothing that rules look at tells the contexts apart. -/
structure Context.LooksLike (first second : Context) : Prop where
  root : first.root = second.root
  config : first.config = second.config
  ranks : first.ranks = second.ranks
  aliases : first.aliases = second.aliases
  directories : first.directories = second.directories
  candidates : first.candidates = second.candidates
  text : ∀ file ∈ first.candidates, first.text file = second.text file
  children : ∀ directory ∈ first.layerDirectories,
    first.children? directory = second.children? directory

namespace Context.LooksLike

variable {first second : Context} (h : first.LooksLike second)

include h

theorem relative (path : Path) : first.relative path = second.relative path := by
  rw [Context.relative, Context.relative, h.root]

theorem inLayerScope (relative : String) :
    first.inLayerScope relative = second.inLayerScope relative := by
  rw [Context.inLayerScope, Context.inLayerScope, h.config]

theorem placement? (path : Path) : first.placement? path = second.placement? path := by
  rw [Context.placement?, Context.placement?, h.root, h.config, h.ranks]

theorem layerDirectories : first.layerDirectories = second.layerDirectories := by
  rw [Context.layerDirectories, Context.layerDirectories, h.directories, h.config]

theorem file {path : Path} (hpath : path ∈ first.candidates) :
    first.file path = second.file path := by
  rw [Context.file, Context.file, h.root, h.text path hpath]

theorem allFrom (path : Path) (text : String) :
    ImportEdge.allFrom first path text = ImportEdge.allFrom second path text := by
  have hreference : ImportEdge.ofReference? first path =
      ImportEdge.ofReference? second path := by
    funext source text reference
    simp only [ImportEdge.ofReference?, h.root, h.aliases, h.placement?]
  simp only [ImportEdge.allFrom, h.placement?, hreference]

end Context.LooksLike

namespace Rule

/-- The rule reports the same in contexts that look alike. -/
def IsSteady (rule : Rule) : Prop :=
  ∀ first second : Context, first.LooksLike second → rule.run first = rule.run second

/-- A rule for single files is steady if it looks at the file and at what is fixed for a run. -/
theorem isSteady_of_file {rule : Rule} {check : Context → SourceFile → List Violation}
    (hcheck : rule.check = .file check)
    (hsteady : ∀ first second : Context, first.LooksLike second →
      ∀ file, check first file = check second file) : rule.IsSteady := by
  intro first second h
  have hruns : (first.candidates.flatMap fun path => check first (first.file path)) =
      second.candidates.flatMap fun path => check second (second.file path) := by
    rw [← h.candidates]
    apply List.flatMap_congr
    intro path hpath
    rw [h.file hpath, hsteady first second h]
  rw [run, run, h.config, hcheck]
  simp only [hruns]

theorem isSteady_of_tree {rule : Rule} {check : Context → List Violation}
    (hcheck : rule.check = .tree check)
    (hsteady : ∀ first second : Context, first.LooksLike second → check first = check second) :
    rule.IsSteady := by
  intro first second h
  rw [run, run, h.config, hcheck]
  simp only [hsteady first second h]

theorem isSteady_fileSuffix : fileSuffix.IsSteady := by
  apply isSteady_of_file rfl
  intro first second h file
  rw [FileSuffix.check, FileSuffix.check, h.config]

theorem isSteady_declarationPlacement : declarationPlacement.IsSteady := by
  apply isSteady_of_file rfl
  intro first second h file
  rw [DeclarationPlacement.check, DeclarationPlacement.check, h.config]

theorem isSteady_layerDirection : layerDirection.IsSteady := by
  apply isSteady_of_file rfl
  intro first second h file
  rw [LayerDirection.check, LayerDirection.check, h.allFrom]

theorem isSteady_barrelFile : barrelFile.IsSteady :=
  isSteady_of_file rfl fun _ _ _ _ => rfl

theorem isSteady_routerHook : routerHook.IsSteady := by
  apply isSteady_of_file rfl
  intro first second h file
  rw [RouterHook.check, RouterHook.check, h.config, h.placement?]

theorem isSteady_nestedLayer : nestedLayer.IsSteady := by
  apply isSteady_of_tree rfl
  intro first second h
  rw [NestedLayer.check, NestedLayer.check, ← h.layerDirectories]
  apply List.flatMap_congr
  intro directory hdirectory
  simp only [NestedLayer.checkDirectory, h.children directory hdirectory, h.config, h.relative]

theorem isSteady_sharedModule : sharedModule.IsSteady := by
  apply isSteady_of_tree rfl
  intro first second h
  have hplacement : first.placement? = second.placement? := funext h.placement?
  have hfiles : SharedModule.firstFiles first = SharedModule.firstFiles second := by
    simp only [SharedModule.firstFiles, h.candidates, hplacement, h.config]
  have hedges : SharedModule.edges first = SharedModule.edges second := by
    rw [SharedModule.edges, SharedModule.edges, ← h.candidates]
    apply List.flatMap_congr
    intro path hpath
    rw [h.allFrom, h.text path (List.mem_of_mem_filter hpath)]
  simp only [SharedModule.check, SharedModule.usages, hfiles, hedges, h.config]

theorem isSteady_kebabCase : kebabCase.IsSteady := by
  apply isSteady_of_tree rfl
  intro first second h
  have hdirectory : KebabCase.checkDirectory first = KebabCase.checkDirectory second := by
    funext directory
    simp only [KebabCase.checkDirectory, h.relative, h.inLayerScope, h.config]
  have hfile : KebabCase.checkFile first = KebabCase.checkFile second := by
    funext path
    simp only [KebabCase.checkFile, h.relative]
  simp only [KebabCase.check, h.directories, h.candidates, hdirectory, hfile]

theorem isSteady_layerName : layerName.IsSteady := by
  apply isSteady_of_tree rfl
  intro first second h
  simp only [LayerName.check, h.directories, h.relative, h.config]

theorem isSteady_moduleForm : moduleForm.IsSteady := by
  apply isSteady_of_tree rfl
  intro first second h
  rw [ModuleForm.check, ModuleForm.check, ← h.layerDirectories]
  apply List.flatMap_congr
  intro directory hdirectory
  simp only [ModuleForm.checkDirectory, h.children directory hdirectory, h.config, h.relative]

/-- Every rule of the rule book is steady. -/
theorem isSteady_of_mem_ruleBook {rule : Rule} (h : rule ∈ ruleBook) : rule.IsSteady := by
  simp only [ruleBook, List.mem_cons, List.not_mem_nil, or_false] at h
  rcases h with rfl | rfl | rfl | rfl | rfl | rfl | rfl | rfl | rfl | rfl
  · exact isSteady_fileSuffix
  · exact isSteady_declarationPlacement
  · exact isSteady_layerDirection
  · exact isSteady_barrelFile
  · exact isSteady_routerHook
  · exact isSteady_nestedLayer
  · exact isSteady_sharedModule
  · exact isSteady_kebabCase
  · exact isSteady_layerName
  · exact isSteady_moduleForm

end Rule

/-- Contexts that look alike have one report. -/
theorem Context.LooksLike.report_eq {first second : Context} (h : first.LooksLike second)
    {rules : List Rule} (hsteady : ∀ rule ∈ rules, rule.IsSteady) (configPath : String)
    (configLoaded : Bool) :
    first.report rules configPath configLoaded = second.report rules configPath configLoaded := by
  have hviolations : first.violations rules = second.violations rules :=
    List.flatMap_congr fun rule hrule => hsteady rule hrule first second h
  rw [Context.report, Context.report, hviolations, h.candidates]

end LayerLint
