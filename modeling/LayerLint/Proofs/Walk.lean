import LayerLint.Analysis
import LayerLint.Proofs.FileTree.Walk
import LayerLint.Proofs.Path.Order

/-! # Ignored directories

What a run looks at comes from what its root's walk meets. So nothing below ignored directories
matters, while the root itself is walked whatever its name.
-/

namespace LayerLint

open FileTree (Reaches pathTo)

variable {tree first second : FileTree} {root path : Path} {entries : List (String × FileTree)}
variable {listed : List (Path × FileTree)}

namespace Context

/-- The context in which walked files and directories are entered. -/
def prepared (tree : FileTree) (root : Path) (config : Config) (discover : Bool) : Context :=
  if discover then
    (ofConfig root config).withDiscovered (Discovery.ofDirectory tree root).aliases
  else ofConfig root config

/-- The context with all that a walk lists. -/
def withListed (context : Context) (listed : List (Path × FileTree)) : Context :=
  let files := listed.filter fun entry => !entry.2.isDirectory
  let directories := listed.filter fun entry => entry.2.isDirectory
  (context.withEntries (files.map Prod.fst) (directories.map Prod.fst)).withTexts files

theorem ofTree?_eq (h : tree.find? root = some (.directory entries)) (config : Config)
    (discover : Bool) :
    ofTree? tree root config discover =
      some ((prepared tree root config discover).withListed
        ((FileTree.directory entries).listed root config.ignoreDirs)) := by
  rw [ofTree?, h]
  simp only [List.partition_eq_filter_filter]
  rfl

theorem withTexts_cons_file (context : Context) (path : Path) (bytes : ByteArray)
    (rest : List (Path × FileTree)) :
    context.withTexts ((path, .file bytes) :: rest) =
      (if path.isSource && context.inLayerScope (context.relative path) then
        context.withText path (Text.decodeForgiving bytes) else context).withTexts rest := rfl

theorem withTexts_cons_directory (context : Context) (path : Path)
    (entries : List (String × FileTree)) (rest : List (Path × FileTree)) :
    context.withTexts ((path, .directory entries) :: rest) = context.withTexts rest := rfl

/-- Reading texts changes nothing else. -/
theorem withTexts_eq (context : Context) (listed : List (Path × FileTree)) :
    context.withTexts listed = { context with texts := (context.withTexts listed).texts } := by
  induction listed generalizing context with
  | nil => rfl
  | cons entry rest ih =>
      obtain ⟨path, bytes | entries⟩ := entry
      · rw [withTexts_cons_file]
        split
        · rw [ih]
          rfl
        · exact ih context
      · rw [withTexts_cons_directory]
        exact ih context

@[simp]
theorem root_prepared (tree : FileTree) (root : Path) (config : Config) (discover : Bool) :
    (prepared tree root config discover).root = root := by
  unfold prepared
  split <;> rfl

@[simp]
theorem config_prepared (tree : FileTree) (root : Path) (config : Config) (discover : Bool) :
    (prepared tree root config discover).config = config := by
  unfold prepared
  split <;> rfl

@[simp]
theorem root_withListed (context : Context) (listed : List (Path × FileTree)) :
    (context.withListed listed).root = context.root := by
  rw [withListed, withTexts_eq]
  rfl

@[simp]
theorem config_withListed (context : Context) (listed : List (Path × FileTree)) :
    (context.withListed listed).config = context.config := by
  rw [withListed, withTexts_eq]
  rfl

@[simp]
theorem relative_prepared (tree : FileTree) (root : Path) (config : Config) (discover : Bool) :
    (prepared tree root config discover).relative = root.relativeTo := by
  funext path
  rw [relative, root_prepared]

@[simp]
theorem relative_withListed (context : Context) (listed : List (Path × FileTree)) :
    (context.withListed listed).relative = context.relative := by
  funext path
  rw [relative, relative, root_withListed]

theorem withListed_pruned (context : Context) (skips : String → Bool)
    (listed : List (Path × FileTree)) :
    context.withListed (listed.map (Prod.map id (FileTree.pruned skips))) =
      context.withListed listed := by
  have hfiles : (listed.map (Prod.map id (FileTree.pruned skips))).filter
      (fun entry => !entry.2.isDirectory) = listed.filter fun entry => !entry.2.isDirectory := by
    have hkind : (fun entry => !entry.2.isDirectory) ∘ Prod.map id (FileTree.pruned skips) =
        fun entry : Path × FileTree => !entry.2.isDirectory := by
      funext entry
      exact congrArg (!·) (FileTree.isDirectory_pruned skips entry.2)
    rw [List.filter_map, hkind]
    refine (List.map_congr_left ?_).trans (List.map_id _)
    rintro ⟨path, bytes | entries⟩ hentry
    · rfl
    · cases (List.mem_filter.mp hentry).2
  have hdirectories : ((listed.map (Prod.map id (FileTree.pruned skips))).filter
      fun entry => entry.2.isDirectory).map Prod.fst =
        (listed.filter fun entry => entry.2.isDirectory).map Prod.fst := by
    have hkind : (fun entry => entry.2.isDirectory) ∘ Prod.map id (FileTree.pruned skips) =
        fun entry : Path × FileTree => entry.2.isDirectory := by
      funext entry
      exact FileTree.isDirectory_pruned skips entry.2
    rw [List.filter_map, hkind, List.map_map]
    rfl
  rw [withListed, withListed, hfiles, hdirectories]

theorem mem_files_withListed {context : Context} :
    path ∈ (context.withListed listed).files ↔ ∃ bytes, (path, .file bytes) ∈ listed := by
  rw [withListed, withTexts_eq]
  refine (Path.perm_sort _).mem_iff.trans ?_
  simp [FileTree.exists_iff, FileTree.isDirectory]

theorem mem_directories_withListed {context : Context} :
    path ∈ (context.withListed listed).directories ↔
      ∃ entries, (path, .directory entries) ∈ listed := by
  rw [withListed, withTexts_eq]
  refine (Path.perm_sort _).mem_iff.trans ?_
  simp [FileTree.exists_iff, FileTree.isDirectory]

end Context

theorem FileTree.listed_pruned (tree : FileTree) (root : Path) (ignored : List String) :
    (tree.pruned ignored.contains).listed root ignored =
      (tree.listed root ignored).map (Prod.map id (FileTree.pruned ignored.contains)) := by
  rw [listed, walk_pruned, List.filter_map]
  rfl

theorem FileTree.mem_listed_iff {ignored : List String} {node : FileTree} :
    (path, node) ∈ tree.listed root ignored ↔ path.fileName? ≠ some metadataName ∧
      ∃ names, Reaches ignored.contains tree names node ∧ path = pathTo root names := by
  rw [listed, List.mem_filter, mem_walk_iff, and_comm, bne_iff_ne]

/-- Without alias discovery, a context comes from what is at the root, but for ignored
directories. -/
theorem Context.ofTree?_eq_bind (tree : FileTree) (root : Path) (config : Config) :
    ofTree? tree root config false =
      ((tree.find? root).map (FileTree.pruned config.ignoreDirs.contains)).bind fun node =>
        if node.isDirectory then
          some ((ofConfig root config).withListed (node.listed root config.ignoreDirs))
        else none := by
  cases hfind : tree.find? root with
  | none => simp [ofTree?, hfind]
  | some node =>
      cases node with
      | file bytes => simp [ofTree?, hfind, FileTree.pruned, FileTree.isDirectory]
      | directory entries =>
          rw [ofTree?_eq hfind, Option.map_some, Option.bind_some, FileTree.isDirectory_pruned,
            FileTree.listed_pruned, withListed_pruned]
          rfl

namespace Analysis

/-- What a run looks at if it does not look for aliases: its root without ignored directories. -/
def rootTree? (analysis : Analysis) (tree : FileTree) : Option FileTree :=
  (tree.find? analysis.normalRoot).map (FileTree.pruned analysis.config.ignoreDirs.contains)

theorem context_eq_of_rootTree?_eq {analysis : Analysis} (hdiscover : analysis.discover = false)
    (h : analysis.rootTree? first = analysis.rootTree? second) :
    analysis.context first = analysis.context second := by
  have heq : Context.ofTree? first analysis.normalRoot analysis.config false =
      Context.ofTree? second analysis.normalRoot analysis.config false := by
    rw [Context.ofTree?_eq_bind, Context.ofTree?_eq_bind]
    exact congrArg (Option.bind · _) h
  rw [context, context, hdiscover, heq]

theorem context_eq (analysis : Analysis)
    (h : tree.find? analysis.normalRoot = some (.directory entries)) :
    analysis.context tree = .ok
      ((Context.prepared tree analysis.normalRoot analysis.config analysis.discover).withListed
        ((FileTree.directory entries).listed analysis.normalRoot analysis.config.ignoreDirs)) := by
  rw [context, Context.ofTree?_eq h]

/-- Without alias discovery, a run does not tell trees apart that are the same but for ignored
directories below its root. Its root is walked whatever its name, and what is listed is what names
lead to from there past no ignored directory. -/
theorem run_ignores_directories (analysis : Analysis) (rules : List Rule)
    (hdiscover : analysis.discover = false) :
    (∀ first second : FileTree, analysis.rootTree? first = analysis.rootTree? second →
      analysis.run first rules = analysis.run second rules) ∧
    ∀ (tree : FileTree) (entries : List (String × FileTree)),
      tree.find? analysis.normalRoot = some (.directory entries) →
      ∃ context, analysis.context tree = .ok context ∧
        analysis.run tree rules =
          .ok (context.report rules analysis.shownConfigPath analysis.configLoaded) ∧
        (∀ path, path ∈ context.files ↔ path.fileName? ≠ some metadataName ∧
          ∃ names bytes, path = pathTo analysis.normalRoot names ∧
            Reaches analysis.config.ignoreDirs.contains (.directory entries) names
              (.file bytes)) ∧
        ∀ path, path ∈ context.directories ↔ path.fileName? ≠ some metadataName ∧
          ∃ names inner, path = pathTo analysis.normalRoot names ∧
            Reaches analysis.config.ignoreDirs.contains (.directory entries) names
              (.directory inner) := by
  constructor
  · intro first second h
    rw [run, run, context_eq_of_rootTree?_eq hdiscover h]
  · intro tree entries hfind
    have hcontext := analysis.context_eq hfind
    refine ⟨_, hcontext, by rw [run, hcontext, Except.map], fun path => ?_, fun path => ?_⟩
    · rw [Context.mem_files_withListed]
      simp only [FileTree.mem_listed_iff]
      constructor
      · rintro ⟨bytes, hname, names, hreach, heq⟩
        exact ⟨hname, names, bytes, heq, hreach⟩
      · rintro ⟨hname, names, bytes, heq, hreach⟩
        exact ⟨bytes, hname, names, hreach, heq⟩
    · rw [Context.mem_directories_withListed]
      simp only [FileTree.mem_listed_iff]
      constructor
      · rintro ⟨inner, hname, names, hreach, heq⟩
        exact ⟨hname, names, inner, heq, hreach⟩
      · rintro ⟨hname, names, inner, heq, hreach⟩
        exact ⟨inner, hname, names, hreach, heq⟩

/-- A root that is named like an ignored directory, beside and above two others. -/
theorem run_ignores_directories_of_docs :
    let analysis : Analysis := ⟨⟨"/docs"⟩, .standard, none, false, false⟩
    let page : FileTree := .directory [("home", .directory [("index.ts", .file .empty)])]
    let package : FileTree := .directory [("_utils", .directory [("index.ts", .file .empty)])]
    let first : FileTree :=
      .directory [("docs", .directory [("node_modules", package), ("_pages", page)])]
    let second : FileTree :=
      .directory [("docs", .directory [("_pages", page), ("docs", package), ("linter", .empty)])]
    analysis.run first ruleBook = analysis.run second ruleBook ∧
      ∃ context, analysis.context first = .ok context ∧
        ⟨"/docs/_pages/home/index.ts"⟩ ∈ context.files := by
  intro analysis page package first second
  have hfind (entries : List (String × FileTree)) :
      (FileTree.directory [("docs", .directory entries)]).find? analysis.normalRoot =
        some (.directory entries) := by
    have hroot : analysis.normalRoot = ⟨"/docs"⟩ := by decide +kernel
    have hcomponents : (⟨"/docs"⟩ : Path).components = [.root, .name "docs"] := by decide +kernel
    rw [hroot, FileTree.find?, hcomponents, if_pos (by decide +kernel)]
    rfl
  have hroots : analysis.rootTree? first = analysis.rootTree? second := by
    rw [rootTree?, rootTree?, hfind, hfind]
    rfl
  obtain ⟨hsame, hlisted⟩ := run_ignores_directories analysis ruleBook rfl
  obtain ⟨context, hcontext, -, hfiles, -⟩ := hlisted first _ (hfind _)
  refine ⟨hsame first second hroots, context, hcontext, (hfiles _).mpr ⟨by decide +kernel, ?_⟩⟩
  refine ⟨["_pages", "home", "index.ts"], .empty, by decide +kernel, ?_⟩
  refine .inside (.tail _ (.head _)) rfl ?_
  exact .inside (.head _) rfl (.inside (.head _) rfl .here)

end Analysis

end LayerLint
