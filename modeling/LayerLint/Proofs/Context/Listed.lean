import LayerLint.Proofs.Context.Candidate
import LayerLint.Proofs.FileTree.Unambiguous
import LayerLint.Proofs.Walk

/-! # What a context lists

A run lists each file and each directory once, unless it lies in an ignored directory or is called
like directory metadata. The files below layers and the directories named like layers are among
them.
-/

namespace LayerLint

open FileTree (pathTo)

variable {tree : FileTree} {root : Path} {ignored : List String}
variable {entries : List (String × FileTree)}

/-- Different components are listed in a strict order. -/
theorem Path.pairwise_lt_sort {paths : List Path} (h : (paths.map components).Nodup) :
    (sort paths).Pairwise fun first second => first.compare second = .lt := by
  have hdistinct : ((sort paths).map components).Nodup :=
    ((perm_sort paths).map components).nodup_iff.mpr h
  refine ((pairwise_sort paths).and (List.pairwise_map.mp hdistinct)).imp ?_
  rintro first second ⟨hle, hne⟩
  refine (Ordering.isLE_iff_eq_lt_or_eq_eq.mp hle).resolve_right fun heq => hne ?_
  exact Std.LawfulEqCmp.eq_of_compare heq

namespace FileTree

/-- The paths list the directories of a tree at a root, or its files: each place outside ignored
directories once, unless it is called like directory metadata, nothing else, and all in listing
order. The root itself counts as no ignored directory. -/
structure IsListedBy (tree : FileTree) (root : Path) (ignored : List String) (directories : Bool)
    (paths : List Path) : Prop where
  once : ∀ names node, tree.nodeAt? names = some node → node.isDirectory = directories →
    (paths.count (pathTo root names) = 1 ↔
      (pathTo root names).fileName? ≠ some metadataName ∧
        ∀ name ∈ directoriesOnWay node names, name ∉ ignored)
  only : ∀ path ∈ paths, ∃ names node, tree.nodeAt? names = some node ∧
    node.isDirectory = directories ∧ path = pathTo root names
  ordered : paths.Pairwise fun first second => first.compare second = .lt

/-- What a walk lists of one kind, put in order. -/
def listedPaths (tree : FileTree) (root : Path) (ignored : List String) (directories : Bool) :
    List Path :=
  Path.sort (((tree.listed root ignored).filter fun entry =>
    entry.2.isDirectory == directories).map Prod.fst)

theorem nodup_listed (hnamed : tree.IsNamed) (hunambiguous : tree.IsUnambiguous) :
    ((tree.listed root ignored).map fun entry => entry.1.components).Nodup :=
  (nodup_walk root tree hnamed hunambiguous).sublist (List.filter_sublist.map _)

theorem isListedBy_listedPaths (hnamed : tree.IsNamed) (hunambiguous : tree.IsUnambiguous)
    (root : Path) (ignored : List String) (directories : Bool) :
    tree.IsListedBy root ignored directories (tree.listedPaths root ignored directories) := by
  have hdistinct : ((((tree.listed root ignored).filter fun entry =>
      entry.2.isDirectory == directories).map Prod.fst).map Path.components).Nodup := by
    rw [List.map_map]
    exact (nodup_listed hnamed hunambiguous).sublist (List.filter_sublist.map _)
  have hmem (path : Path) : path ∈ tree.listedPaths root ignored directories ↔
      ∃ node, (path, node) ∈ tree.listed root ignored ∧ node.isDirectory = directories := by
    rw [listedPaths, (Path.perm_sort _).mem_iff]
    simp
  have hordered := Path.pairwise_lt_sort hdistinct
  refine ⟨fun names node hfound hkind => ?_, fun path hpath => ?_, hordered⟩
  · have hnodup : (tree.listedPaths root ignored directories).Nodup :=
      hordered.imp fun hlt heq => by simp [heq, Path.compare, Std.ReflCmp.compare_self] at hlt
    have honce : (tree.listedPaths root ignored directories).count (pathTo root names) = 1 ↔
        pathTo root names ∈ tree.listedPaths root ignored directories := by
      rw [hnodup.count]
      split <;> simp_all
    rw [honce, hmem]
    constructor
    · rintro ⟨other, hlisted, -⟩
      obtain ⟨hname, others, hreach, heq⟩ := mem_listed_iff.mp hlisted
      obtain rfl := eq_of_pathTo_eq (isName_of_nodeAt? hnamed hunambiguous hfound)
        (hreach.isName hnamed) heq
      obtain ⟨hother, hways⟩ := (reaches_iff hunambiguous).mp hreach
      obtain rfl : node = other := Option.some.inj (hfound.symm.trans hother)
      exact ⟨hname, fun name hmem => by simpa using hways name hmem⟩
    · rintro ⟨hname, hways⟩
      refine ⟨node, mem_listed_iff.mpr ⟨hname, names, ?_, rfl⟩, hkind⟩
      exact (reaches_iff hunambiguous).mpr ⟨hfound, fun name hmem => by simpa using hways name hmem⟩
  · obtain ⟨node, hlisted, hkind⟩ := (hmem path).mp hpath
    obtain ⟨-, names, hreach, rfl⟩ := mem_listed_iff.mp hlisted
    exact ⟨names, node, ((reaches_iff hunambiguous).mp hreach).1, hkind, rfl⟩

/-- Listed files are told apart by the names that lead to them from the root. -/
theorem IsListedBy.nodup_relativeTo {paths : List Path}
    (h : (directory entries).IsListedBy root ignored false paths)
    (hnamed : (directory entries).IsNamed) (hunambiguous : (directory entries).IsUnambiguous) :
    (paths.map root.relativeTo).Nodup := by
  have hwritten {path : Path} (hpath : path ∈ paths) : ∃ names : List String, names ≠ [] ∧
      (∀ name ∈ names, Path.IsName name) ∧ path = pathTo root names ∧
        root.relativeTo path = Text.joinWith "/" names := by
    obtain ⟨names, node, hfound, hkind, rfl⟩ := h.only path hpath
    have hnames := isName_of_nodeAt? hnamed hunambiguous hfound
    refine ⟨names, ?_, hnames, rfl, Path.relativeTo_of_names (normalComponents_pathTo root hnames)⟩
    rintro rfl
    cases hfound
    cases hkind
  refine List.pairwise_map.mpr (h.ordered.imp_of_mem ?_)
  intro first second hfirst hsecond hlt heq
  obtain ⟨names, hne, hnames, rfl, hrelative⟩ := hwritten hfirst
  obtain ⟨others, hne', hothers, rfl, hrelative'⟩ := hwritten hsecond
  rw [hrelative, hrelative'] at heq
  have hslash {names : List String} (hnames : ∀ name ∈ names, Path.IsName name) :
      ∀ name ∈ names, '/' ∉ name.toList := fun name hmem => (hnames name hmem).2.2.2
  obtain rfl := Text.joinWith_injective hne hne' (hslash hnames) (hslash hothers) heq
  simp [Path.compare, Std.ReflCmp.compare_self] at hlt

end FileTree

namespace Context

theorem files_withListed (context : Context) (tree : FileTree) (root : Path)
    (ignored : List String) :
    (context.withListed (tree.listed root ignored)).files =
      tree.listedPaths root ignored false := by
  have hkind : (fun entry : Path × FileTree => entry.2.isDirectory == false) =
      fun entry => !entry.2.isDirectory := by
    funext entry
    exact beq_false _
  rw [withListed, withTexts_eq, FileTree.listedPaths, hkind]
  rfl

theorem directories_withListed (context : Context) (tree : FileTree) (root : Path)
    (ignored : List String) :
    (context.withListed (tree.listed root ignored)).directories =
      tree.listedPaths root ignored true := by
  have hkind : (fun entry : Path × FileTree => entry.2.isDirectory == true) =
      fun entry => entry.2.isDirectory := by
    funext entry
    exact beq_true _
  rw [withListed, withTexts_eq, FileTree.listedPaths, hkind]
  rfl

end Context

/-- A run lists the files and the directories of its root, each outside ignored directories once.
The files below layers and the directories named like layers are the parts of these lists that have
a segment or a name of a layer. -/
theorem Analysis.context_lists_once (analysis : Analysis)
    (hfind : tree.find? analysis.normalRoot = some (.directory entries))
    (hnamed : (FileTree.directory entries).IsNamed)
    (hunambiguous : (FileTree.directory entries).IsUnambiguous) :
    ∃ context, analysis.context tree = .ok context ∧
      (FileTree.directory entries).IsListedBy analysis.normalRoot analysis.config.ignoreDirs false
        context.files ∧
      (FileTree.directory entries).IsListedBy analysis.normalRoot analysis.config.ignoreDirs true
        context.directories ∧
      (context.candidates.Sublist context.files ∧
        ∀ file, file ∈ context.candidates ↔ file ∈ context.files ∧
          ∃ layer ∈ analysis.config.layerDirs,
            layer ∈ Path.segments (analysis.normalRoot.relativeTo file)) ∧
      context.layerDirectories.Sublist context.directories ∧
        ∀ directory, directory ∈ context.layerDirectories ↔ directory ∈ context.directories ∧
          ∃ layer ∈ analysis.config.layerDirs, directory.fileName? = some layer := by
  refine ⟨_, analysis.context_eq hfind, ?_, ?_, ⟨List.filter_sublist, fun file => ?_⟩,
    List.filter_sublist, fun directory => ?_⟩
  · rw [Context.files_withListed]
    exact FileTree.isListedBy_listedPaths hnamed hunambiguous _ _ false
  · rw [Context.directories_withListed]
    exact FileTree.isListedBy_listedPaths hnamed hunambiguous _ _ true
  · rw [Context.mem_candidates_iff, Context.config_withListed, Context.config_prepared,
      Context.relative_withListed, Context.relative_prepared]
  · rw [Context.mem_layerDirectories_iff, Context.config_withListed, Context.config_prepared]

/-- A page beside directory metadata, and an ignored directory in its layer. -/
theorem Analysis.context_lists_once_of_shop :
    let analysis : Analysis := ⟨⟨"/shop"⟩, .standard, none, false, false⟩
    let pages : FileTree := .directory
      [("home.tsx", .file .empty), (".DS_Store", .file .empty),
        ("docs", .directory [("index.ts", .file .empty)])]
    let tree : FileTree := .directory [("shop", .directory [("_pages", pages)])]
    let place := pathTo analysis.normalRoot
    ∃ context, analysis.context tree = .ok context ∧
      context.files.count (place ["_pages", "home.tsx"]) = 1 ∧
      context.files.count (place ["_pages", ".DS_Store"]) ≠ 1 ∧
      context.files.count (place ["_pages", "docs", "index.ts"]) ≠ 1 ∧
      context.directories.count (place ["_pages"]) = 1 ∧
      context.directories.count (place ["_pages", "docs"]) ≠ 1 := by
  intro analysis pages tree place
  have hfind : tree.find? analysis.normalRoot = some (.directory [("_pages", pages)]) := by
    have hroot : analysis.normalRoot = ⟨"/shop"⟩ := by decide +kernel
    have hcomponents : (⟨"/shop"⟩ : Path).components = [.root, .name "shop"] := by decide +kernel
    rw [hroot, FileTree.find?, hcomponents, if_pos (by decide +kernel)]
    rfl
  have hnamed : (FileTree.directory [("_pages", pages)]).IsNamed := by
    have hnone : (FileTree.directory []).IsNamed := .directory nofun nofun
    simp [pages, FileTree.isNamed_cons_iff, FileTree.IsNamed.file, hnone, Path.IsName]
  have hunambiguous : (FileTree.directory [("_pages", pages)]).IsUnambiguous := by
    have hnone : (FileTree.directory []).IsUnambiguous := .directory List.nodup_nil nofun
    simp [pages, FileTree.isUnambiguous_cons_iff, FileTree.IsUnambiguous.file, hnone]
  obtain ⟨context, hcontext, hfiles, hdirectories, -⟩ :=
    context_lists_once analysis hfind hnamed hunambiguous
  have hhome := hfiles.once ["_pages", "home.tsx"] _ rfl rfl
  have hmetadata := hfiles.once ["_pages", ".DS_Store"] _ rfl rfl
  have hbelow := hfiles.once ["_pages", "docs", "index.ts"] _ rfl rfl
  have hpages := hdirectories.once ["_pages"] _ rfl rfl
  have hdocs := hdirectories.once ["_pages", "docs"] _ rfl rfl
  refine ⟨context, hcontext, hhome.mpr ?_, hmetadata.not.mpr ?_, hbelow.not.mpr ?_,
    hpages.mpr ?_, hdocs.not.mpr ?_⟩ <;> decide +kernel

/-- The files below layers that a run looks at have root-relative forms of their own. -/
theorem Analysis.nodup_relative_candidates (analysis : Analysis)
    (hfind : tree.find? analysis.normalRoot = some (.directory entries))
    (hnamed : (FileTree.directory entries).IsNamed)
    (hunambiguous : (FileTree.directory entries).IsUnambiguous) :
    ∃ context, analysis.context tree = .ok context ∧
      (context.candidates.map context.relative).Nodup := by
  refine ⟨_, analysis.context_eq hfind, ?_⟩
  have hlisted := FileTree.isListedBy_listedPaths hnamed hunambiguous analysis.normalRoot
    analysis.config.ignoreDirs false
  have hfiles := hlisted.nodup_relativeTo hnamed hunambiguous
  rw [Context.relative_withListed, Context.relative_prepared]
  refine List.Nodup.sublist (List.filter_sublist.map _) ?_
  rw [Context.files_withListed]
  exact hfiles

end LayerLint
