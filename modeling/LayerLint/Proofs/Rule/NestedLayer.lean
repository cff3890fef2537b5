import LayerLint.Proofs.Context.Candidate
import LayerLint.Proofs.Context.Listing
import LayerLint.Rule.NestedLayer
import Mathlib.Data.List.Forall2

/-! # Layers directly inside layers

The rule goes through the walked layers and looks up in their listings which layers stand in them.
Since a listing shows the walked directories whose parent it belongs to, the rule meets each layer
whose parent is a walked layer, once, and no other directory.
-/

namespace LayerLint.Rule.NestedLayer

variable {context : Context} {directories files : List Path} {directory : Path}
variable {outer inner : String}

/-- A walked directory with the name of a layer, directly in a walked directory with the name of a
layer. -/
structure IsNested (context : Context) (outer inner : String) (directory : Path) : Prop where
  mem : directory ∈ context.directories
  fileName?_eq : directory.fileName? = some inner
  isLayer : inner ∈ context.config.layerDirs
  exists_parent : ∃ parent ∈ context.directories,
    directory.parent? = some parent ∧ parent.fileName? = some outer
  parent_isLayer : outer ∈ context.config.layerDirs

/-- The violation stands at a nested layer, and names it and the one that it is in. -/
def Reports (context : Context) (directory : Path) (violation : Violation) : Prop :=
  ∃ outer inner, IsNested context outer inner directory ∧
    violation = .atStart id (context.relative directory) (message inner outer)

/-! ## Pairs of names -/

/-- The names of the layers directly in a directory. -/
def layersIn (context : Context) (directory : Path) : List String :=
  ((context.children? directory).elim [] Children.directoryNames).filter
    context.config.layerDirs.contains

/-- Each layer with the name of a layer directly in it. -/
def pairs (context : Context) : List (Path × String) :=
  context.layerDirectories.flatMap fun directory =>
    (layersIn context directory).map (directory, ·)

theorem mem_pairs_iff : (directory, inner) ∈ pairs context ↔
    directory ∈ context.layerDirectories ∧ inner ∈ layersIn context directory := by
  simp [pairs]

theorem check_eq_map (context : Context) :
    check context = (pairs context).map fun pair =>
      .atStart id (context.relative (pair.1.join ⟨pair.2⟩))
        (message pair.2 (pair.1.fileName?.getD "")) := by
  rw [check, pairs, List.map_flatMap]
  apply List.flatMap_congr
  intro directory hdirectory
  obtain ⟨-, layer, -, hname⟩ := Context.mem_layerDirectories_iff.mp hdirectory
  rw [checkDirectory, layersIn, hname, List.map_map]
  cases context.children? directory with
  | none => rfl
  | some children => simp [hname, Function.comp_def]

theorem nodup_layersIn (context : Context) (directory : Path) :
    (layersIn context directory).Nodup := by
  apply List.Nodup.filter
  cases context.children? directory with
  | none => exact List.nodup_nil
  | some children => exact children.directories.nodup_keys

theorem nodup_pairs (hdistinct : context.directories.Nodup) : (pairs context).Nodup := by
  rw [pairs, List.nodup_flatMap]
  constructor
  · intro directory _
    exact (nodup_layersIn context directory).map (Prod.mk_right_injective directory)
  · refine (hdistinct.filter _).imp ?_
    intro first second hne pair hfirst hsecond
    obtain ⟨_, -, rfl⟩ := List.mem_map.mp hfirst
    obtain ⟨_, -, heq⟩ := List.mem_map.mp hsecond
    exact hne (congrArg Prod.fst heq).symm

/-! ## Walked directories -/

section

variable (hdirectories : ∀ directory ∈ directories, directory.normalize = directory)
  (hfiles : ∀ file ∈ files, file.normalize = file)

include hdirectories hfiles

theorem mem_layersIn_iff (hmem : directory ∈ directories) :
    inner ∈ layersIn (context.withEntries files directories) directory ↔
      Listing.Holds directories directory inner ∧ inner ∈ context.config.layerDirs := by
  have hsorted {paths : List Path} {path : Path} : path ∈ Path.sort paths ↔ path ∈ paths :=
    (Path.perm_sort paths).mem_iff
  obtain ⟨children, hchildren, hnames, -⟩ := Listing.exists_children?_of_mem
    (fun path hpath => hdirectories path (hsorted.mp hpath))
    (fun path hpath => hfiles path (hsorted.mp hpath)) (hsorted.mpr hmem)
  have hlisted : (context.withEntries files directories).children? directory = some children :=
    hchildren
  rw [layersIn, hlisted, List.mem_filter, Option.elim_some, hnames, List.contains_iff_mem]
  exact and_congr_left fun _ => exists_congr fun path => and_congr_left fun _ => hsorted

theorem mem_pairs_withEntries_iff :
    (directory, inner) ∈ pairs (context.withEntries files directories) ↔
      ∃ outer, IsNested (context.withEntries files directories) outer inner
          (directory.join ⟨inner⟩) ∧
        (directory.join ⟨inner⟩).parent? = some directory ∧ directory.fileName? = some outer := by
  have hwalked {path : Path} : path ∈ (context.withEntries files directories).directories ↔
      path ∈ directories := (Path.perm_sort directories).mem_iff
  rw [mem_pairs_iff, Context.mem_layerDirectories_iff, hwalked]
  constructor
  · rintro ⟨⟨hmem, outer, houter, hname⟩, hinner⟩
    obtain ⟨⟨path, hpath, hparent, hpathName⟩, hlayer⟩ :=
      (mem_layersIn_iff hdirectories hfiles hmem).mp hinner
    obtain rfl := Path.join_of_parent? (hdirectories path hpath) hparent hpathName
    exact ⟨outer, ⟨hwalked.mpr hpath, hpathName, hlayer,
      ⟨directory, hwalked.mpr hmem, hparent, hname⟩, houter⟩, hparent, hname⟩
  · rintro ⟨outer, hnested, hparent, hname⟩
    obtain ⟨parent, hmem, hparent', -⟩ := hnested.exists_parent
    obtain rfl : directory = parent := Option.some.inj (hparent.symm.trans hparent')
    rw [hwalked] at hmem
    refine ⟨⟨hmem, outer, hnested.parent_isLayer, hname⟩, ?_⟩
    exact (mem_layersIn_iff hdirectories hfiles hmem).mpr
      ⟨⟨_, hwalked.mp hnested.mem, hparent, hnested.fileName?_eq⟩, hnested.isLayer⟩

end

/-- A listing shows for each walked directory the names of the walked directories and files whose
parent it is, and no others. The violations are those of the walked layers whose parent is a walked
layer, one for each. -/
theorem check_reports_nested (context : Context)
    (hdirectories : ∀ directory ∈ directories, directory.normalize = directory)
    (hfiles : ∀ file ∈ files, file.normalize = file) (hdistinct : directories.Nodup) :
    (∀ directory ∈ directories, ∃ children,
      (Listing.ofPaths directories files).children? directory = some children ∧
        (∀ name, name ∈ children.directoryNames ↔ Listing.Holds directories directory name) ∧
        ∀ name, name ∈ children.fileNames ↔ Listing.Holds files directory name) ∧
    ∃ nested : List Path, nested.Nodup ∧
      (∀ directory, directory ∈ nested ↔ ∃ outer inner,
        IsNested (context.withEntries files directories) outer inner directory) ∧
      List.Forall₂ (Reports (context.withEntries files directories)) nested
        (check (context.withEntries files directories)) := by
  refine ⟨fun directory => Listing.exists_children?_of_mem hdirectories hfiles, ?_⟩
  have hpairs {directory : Path} {inner : String} :
      (directory, inner) ∈ pairs (context.withEntries files directories) ↔ _ :=
    mem_pairs_withEntries_iff hdirectories hfiles
  refine ⟨(pairs (context.withEntries files directories)).map fun pair => pair.1.join ⟨pair.2⟩,
    ?_, ?_, ?_⟩
  · have hwalked : (context.withEntries files directories).directories.Nodup :=
      (Path.perm_sort directories).nodup_iff.mpr hdistinct
    refine List.Nodup.map_on ?_ (nodup_pairs hwalked)
    rintro ⟨first, name⟩ hfirst ⟨second, other⟩ hsecond heq
    obtain ⟨_, hnested, hparent, -⟩ := hpairs.mp hfirst
    obtain ⟨_, hnested', hparent', -⟩ := hpairs.mp hsecond
    obtain rfl : first = second := by rwa [heq, hparent', Option.some.injEq, eq_comm] at hparent
    have hname := hnested.fileName?_eq
    rw [heq, hnested'.fileName?_eq, Option.some.injEq] at hname
    rw [hname]
  · intro directory
    rw [List.mem_map]
    constructor
    · rintro ⟨⟨parent, inner⟩, hpair, rfl⟩
      obtain ⟨outer, hnested, -⟩ := hpairs.mp hpair
      exact ⟨outer, inner, hnested⟩
    · rintro ⟨outer, inner, hnested⟩
      obtain ⟨parent, -, hparent, hname⟩ := hnested.exists_parent
      have hnormal := hdirectories directory ((Path.perm_sort directories).mem_iff.mp hnested.mem)
      have hjoin := Path.join_of_parent? hnormal hparent hnested.fileName?_eq
      refine ⟨(parent, inner), hpairs.mpr ⟨outer, ?_⟩, hjoin⟩
      rw [hjoin]
      exact ⟨hnested, hparent, hname⟩
  · rw [check_eq_map, List.forall₂_map_left_iff, List.forall₂_map_right_iff, List.forall₂_same]
    rintro ⟨parent, inner⟩ hpair
    obtain ⟨outer, hnested, -, hname⟩ := hpairs.mp hpair
    exact ⟨outer, inner, hnested, by rw [hname, Option.getD_some]⟩

/-- Of two directories of states one stands in a page and one right below the pages. Only the latter
is reported, though nothing is in it. -/
theorem check_reports_nested_of_empty_states :
    let directories : List Path := [⟨"/shop/_pages/_states"⟩, ⟨"/shop/_pages/home/_states"⟩,
      ⟨"/shop/_pages/home"⟩, ⟨"/shop/_pages"⟩, ⟨"/shop"⟩]
    let files : List Path := [⟨"/shop/_pages/home/_states/cart.ts"⟩]
    let walked := (Context.ofConfig ⟨"/shop"⟩ .standard).withEntries files directories
    (∀ directory ∈ directories, directory.normalize = directory) ∧
      (∀ file ∈ files, file.normalize = file) ∧ directories.Nodup ∧
      (∃ children, (Listing.ofPaths directories files).children? ⟨"/shop/_pages"⟩ = some children ∧
        ∀ name, name ∈ children.directoryNames ↔
          Listing.Holds directories ⟨"/shop/_pages"⟩ name) ∧
      check walked = [.atStart "FLA005" "_pages/_states" (message "_states" "_pages")] ∧
      ∃ nested : List Path, nested.Nodup ∧ (∀ directory, directory ∈ nested ↔
          ∃ outer inner, IsNested walked outer inner directory) ∧
        List.Forall₂ (Reports walked) nested (check walked) := by
  intro directories files walked
  have hdirectories : ∀ directory ∈ directories, directory.normalize = directory := by
    decide +kernel
  have hfiles : ∀ file ∈ files, file.normalize = file := by decide +kernel
  have hdistinct : directories.Nodup := by decide +kernel
  have hsorted : [⟨"/shop"⟩, ⟨"/shop/_pages"⟩, ⟨"/shop/_pages/_states"⟩, ⟨"/shop/_pages/home"⟩,
      ⟨"/shop/_pages/home/_states"⟩] = Path.sort directories := by
    refine Path.eq_of_perm_of_pairwise (by decide +kernel) ?_ (Path.pairwise_sort directories)
      (.trans (by decide +kernel) (Path.perm_sort directories).symm)
    unfold Path.NotBehind
    decide +kernel
  have hcheck : check walked =
      [.atStart "FLA005" "_pages/_states" (message "_states" "_pages")] := by
    simp only [walked, Context.withEntries, ← hsorted]
    decide +kernel
  obtain ⟨hlisted, hnested⟩ := check_reports_nested
    (Context.ofConfig ⟨"/shop"⟩ .standard) hdirectories hfiles hdistinct
  obtain ⟨children, hchildren, hnames, -⟩ := hlisted ⟨"/shop/_pages"⟩ (by decide +kernel)
  exact ⟨hdirectories, hfiles, hdistinct, ⟨children, hchildren, hnames⟩, hcheck, hnested⟩

end LayerLint.Rule.NestedLayer
