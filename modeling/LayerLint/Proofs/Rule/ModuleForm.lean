import LayerLint.Proofs.Context.Candidate
import LayerLint.Proofs.Context.Listing
import LayerLint.Proofs.FileName
import LayerLint.Rule.ModuleForm
import Mathlib.Data.List.Forall2

/-! # Modules of both forms

The rule compares the names of the directories and of the files that stand in a layer. Since a
listing shows the walked entries of a directory, a layer is reported if it holds modules of either
form, and in addition for each name that modules of both forms share.
-/

namespace LayerLint.Rule.ModuleForm

variable {context : Context} {directory : Path} {layers : List String} {children : Children}
variable {layer module : String}

/-! ## What stands in a layer -/

/-- A walked directory of this name stands in the directory and is a module: neither a layer nor
hidden nor marked by an underscore. -/
def IsDirectoryModule (context : Context) (directory : Path) (module : String) : Prop :=
  Listing.Holds context.directories directory module ∧ module ∉ context.config.layerDirs ∧
    ¬ Text.beginsWith "." module = true ∧ ¬ Text.beginsWith "_" module = true

/-- A walked file of this name stands in the directory and belongs to a module: it is neither hidden
nor an index. -/
def IsModuleFile (context : Context) (directory : Path) (name : String) : Prop :=
  Listing.Holds context.files directory name ∧
    ¬ Text.beginsWith "." name = true ∧ ¬ Text.beginsWith "index." name = true

/-- Modules of either form stand in the directory. -/
def Mixes (context : Context) (directory : Path) : Prop :=
  (∃ module, IsDirectoryModule context directory module) ∧
    ∃ name, IsModuleFile context directory name

/-- A directory of this name is a module, and so is a file with this name up to its first dot. -/
def IsBoth (context : Context) (directory : Path) (module : String) : Prop :=
  IsDirectoryModule context directory module ∧
    ∃ name, IsModuleFile context directory name ∧ (FileName.tokens name).head? = some module

/-- The violations at one layer: first that it mixes both forms, if it does, and then each module of
both forms in the order of their names. -/
structure IsReport (context : Context) (directory : Path) (layer : String) (both : List String)
    (violations : List Violation) : Prop where
  fileName?_eq : directory.fileName? = some layer
  ordered : both.Pairwise (· < ·)
  mem_both_iff : ∀ module, module ∈ both ↔ IsBoth context directory module
  mixes_of_both : both ≠ [] → Mixes context directory
  of_mixes : Mixes context directory → violations =
    (mixedMessage layer :: both.map (bothMessage · layer)).map
      (.atStart id (context.relative directory))
  of_not_mixes : ¬ Mixes context directory → violations = []

/-! ## Listed names -/

/-- The modules of both forms that a listing shows. -/
def bothModules (layers : List String) (children : Children) : List String :=
  (directoryModules layers children).filter fun module =>
    ((fileModules children).get? module).isSome

theorem mem_directoryModules_iff : module ∈ directoryModules layers children ↔
    module ∈ children.directoryNames ∧ module ∉ layers ∧
      ¬ Text.beginsWith "." module = true ∧ ¬ Text.beginsWith "_" module = true := by
  rw [directoryModules, List.mem_filter]
  simp [and_comm, and_left_comm]

theorem isSome_get?_fileModules_iff : ((fileModules children).get? module).isSome = true ↔
    ∃ name ∈ children.fileNames, (¬ Text.beginsWith "." name = true ∧
      ¬ Text.beginsWith "index." name = true) ∧ FileName.moduleName? name = some module := by
  rw [fileModules, Dict.isSome_get?_ofList]
  simp [List.mem_filterMap, and_assoc]

theorem pairwise_bothModules : (bothModules layers children).Pairwise (· < ·) := by
  have hnames : children.directoryNames.Pairwise (· < ·) :=
    List.pairwise_map.mpr children.directories.sorted
  exact (hnames.filter _).filter _

theorem complaints_eq (layers : List String) (layer : String) (children : Children) :
    complaints layers layer children =
      (if !(directoryModules layers children).isEmpty && !(fileModules children).isEmpty then
        [mixedMessage layer] else []) ++ (bothModules layers children).map (bothMessage · layer) :=
  rfl

theorem exists_of_mem_bothModules (h : module ∈ bothModules layers children) :
    module ∈ directoryModules layers children ∧ (fileModules children).isEmpty = false := by
  obtain ⟨hdirectory, hfile⟩ := List.mem_filter.mp h
  refine ⟨hdirectory, ?_⟩
  rw [← Bool.not_eq_true, Dict.isEmpty_eq_true_iff]
  intro hnone
  rw [hnone] at hfile
  cases hfile

/-! ## Walked names -/

section

variable
  (hdirectories : ∀ name, name ∈ children.directoryNames ↔
    Listing.Holds context.directories directory name)
  (hfiles : ∀ name, name ∈ children.fileNames ↔ Listing.Holds context.files directory name)

include hdirectories in
theorem mem_directoryModules_iff_walked :
    module ∈ directoryModules context.config.layerDirs children ↔
      IsDirectoryModule context directory module := by
  rw [mem_directoryModules_iff, hdirectories, IsDirectoryModule]

include hfiles in
theorem isSome_get?_fileModules_iff_walked :
    ((fileModules children).get? module).isSome = true ↔
      ∃ name, IsModuleFile context directory name ∧ FileName.moduleName? name = some module := by
  rw [isSome_get?_fileModules_iff]
  simp only [hfiles, IsModuleFile, and_assoc]

include hfiles in
theorem isEmpty_fileModules_iff_walked :
    (fileModules children).isEmpty = false ↔ ∃ name, IsModuleFile context directory name := by
  rw [← Bool.not_eq_true, Dict.isEmpty_eq_true_iff, not_forall]
  simp only [← ne_eq, Option.ne_none_iff_isSome, isSome_get?_fileModules_iff_walked hfiles]
  constructor
  · rintro ⟨module, name, hname, -⟩
    exact ⟨name, hname⟩
  · rintro ⟨name, hname⟩
    obtain ⟨module, hmodule⟩ := FileName.exists_moduleName? hname.1.isName.1 hname.2.1
    exact ⟨module, name, hname, hmodule⟩

include hdirectories hfiles

theorem mem_bothModules_iff_walked :
    module ∈ bothModules context.config.layerDirs children ↔ IsBoth context directory module := by
  rw [bothModules, List.mem_filter, mem_directoryModules_iff_walked hdirectories,
    isSome_get?_fileModules_iff_walked hfiles, IsBoth]
  refine and_congr_right fun hmodule => exists_congr fun name => and_congr_right fun _ => ?_
  rw [FileName.moduleName?_eq_some_iff]
  exact and_iff_right hmodule.1.isName.1

theorem mixes_iff : (!(directoryModules context.config.layerDirs children).isEmpty &&
    !(fileModules children).isEmpty) = true ↔ Mixes context directory := by
  rw [Bool.and_eq_true, Bool.not_eq_true', Bool.not_eq_true', Mixes,
    isEmpty_fileModules_iff_walked hfiles]
  refine and_congr_left fun _ => ?_
  rw [List.isEmpty_eq_false_iff_exists_mem]
  exact exists_congr fun _ => mem_directoryModules_iff_walked hdirectories

theorem mixes_of_bothModules_ne_nil
    (hne : bothModules context.config.layerDirs children ≠ []) : Mixes context directory := by
  obtain ⟨module, hmem⟩ := List.exists_mem_of_ne_nil _ hne
  obtain ⟨hmodule, hfile⟩ := exists_of_mem_bothModules hmem
  exact ⟨⟨module, (mem_directoryModules_iff_walked hdirectories).mp hmodule⟩,
    (isEmpty_fileModules_iff_walked hfiles).mp hfile⟩

theorem isReport_complaints (hname : directory.fileName? = some layer) :
    IsReport context directory layer (bothModules context.config.layerDirs children)
      ((complaints context.config.layerDirs layer children).map
        (.atStart id (context.relative directory))) where
  fileName?_eq := hname
  ordered := pairwise_bothModules
  mem_both_iff _ := mem_bothModules_iff_walked hdirectories hfiles
  mixes_of_both := mixes_of_bothModules_ne_nil hdirectories hfiles
  of_mixes hmixes := by
    rw [complaints_eq, if_pos ((mixes_iff hdirectories hfiles).mpr hmixes)]
    rfl
  of_not_mixes hmixes := by
    have hnone : bothModules context.config.layerDirs children = [] :=
      Classical.byContradiction fun hne =>
        hmixes (mixes_of_bothModules_ne_nil hdirectories hfiles hne)
    rw [complaints_eq, if_neg (mt (mixes_iff hdirectories hfiles).mp hmixes), hnone]
    rfl

end

/-- A walked directory that is named like a layer is reported for the modules in it. -/
theorem exists_isReport_checkDirectory {directories files : List Path}
    (hdirectories : ∀ directory ∈ directories, directory.normalize = directory)
    (hfiles : ∀ file ∈ files, file.normalize = file) (hmem : directory ∈ directories)
    (hname : directory.fileName? = some layer) :
    ∃ both, IsReport (context.withEntries files directories) directory layer both
      (checkDirectory (context.withEntries files directories) directory) := by
  have hsorted {paths : List Path} {path : Path} : path ∈ Path.sort paths ↔ path ∈ paths :=
    (Path.perm_sort paths).mem_iff
  obtain ⟨children, hchildren, hshown, hshown'⟩ := Listing.exists_children?_of_mem
    (fun path hpath => hdirectories path (hsorted.mp hpath))
    (fun path hpath => hfiles path (hsorted.mp hpath)) (hsorted.mpr hmem)
  have hlisted : (context.withEntries files directories).children? directory = some children :=
    hchildren
  rw [checkDirectory, hname, hlisted]
  exact ⟨_, isReport_complaints hshown hshown' hname⟩

/-- Each walked layer is reported once for mixing modules of both forms, if it does, and once for
each name that modules of both forms share, in increasing order. Only a layer that mixes forms has
such names, and nothing else is reported. -/
theorem check_reports_forms (context : Context) {directories files : List Path}
    (hdirectories : ∀ directory ∈ directories, directory.normalize = directory)
    (hfiles : ∀ file ∈ files, file.normalize = file) (hdistinct : directories.Nodup) :
    let walked := context.withEntries files directories
    ∃ layers : List Path, ∃ reports : List (List Violation), layers.Nodup ∧
      (∀ directory, directory ∈ layers ↔ directory ∈ directories ∧
        ∃ layer ∈ context.config.layerDirs, directory.fileName? = some layer) ∧
      List.Forall₂ (fun directory violations =>
        ∃ layer both, IsReport walked directory layer both violations) layers reports ∧
      check walked = reports.flatten := by
  intro walked
  have hwalked {directory : Path} : directory ∈ walked.layerDirectories ↔
      directory ∈ directories ∧
        ∃ layer ∈ context.config.layerDirs, directory.fileName? = some layer :=
    Context.mem_layerDirectories_iff.trans
      (and_congr_left fun _ => (Path.perm_sort directories).mem_iff)
  refine ⟨walked.layerDirectories, walked.layerDirectories.map (checkDirectory walked), ?_,
    fun directory => hwalked, ?_, rfl⟩
  · exact ((Path.perm_sort directories).nodup_iff.mpr hdistinct).filter _
  · rw [List.forall₂_map_right_iff, List.forall₂_same]
    intro directory hmem
    obtain ⟨hdirectory, layer, -, hname⟩ := hwalked.mp hmem
    exact ⟨layer, exists_isReport_checkDirectory hdirectories hfiles hdirectory hname⟩

/-- A cart in both forms, with two files, beside a module of one form. Neither the index nor the
nested layer is a module. -/
theorem check_reports_forms_of_cart :
    let directories : List Path := [⟨"/shop/_states/cart"⟩, ⟨"/shop/_states/_pages"⟩,
      ⟨"/shop/_states"⟩, ⟨"/shop"⟩]
    let files : List Path := [⟨"/shop/_states/session.ts"⟩, ⟨"/shop/_states/cart.type.ts"⟩,
      ⟨"/shop/_states/cart.ts"⟩, ⟨"/shop/_states/_pages/index.ts"⟩]
    let walked := (Context.ofConfig ⟨"/shop"⟩ .standard).withEntries files directories
    (∀ directory ∈ directories, directory.normalize = directory) ∧
      (∀ file ∈ files, file.normalize = file) ∧ directories.Nodup ∧
      check walked = [.atStart "FLA009" "_states" (mixedMessage "_states"),
        .atStart "FLA009" "_states" (bothMessage "cart" "_states")] ∧
      ∃ layers : List Path, ∃ reports : List (List Violation), layers.Nodup ∧
        (∀ directory, directory ∈ layers ↔ directory ∈ directories ∧
          ∃ layer ∈ Layer.names, directory.fileName? = some layer) ∧
        List.Forall₂ (fun directory violations =>
          ∃ layer both, IsReport walked directory layer both violations) layers reports ∧
        check walked = reports.flatten := by
  intro directories files walked
  have hdirectories : ∀ directory ∈ directories, directory.normalize = directory := by
    decide +kernel
  have hfiles : ∀ file ∈ files, file.normalize = file := by decide +kernel
  have hdistinct : directories.Nodup := by decide +kernel
  have hsorted : [⟨"/shop"⟩, ⟨"/shop/_states"⟩, ⟨"/shop/_states/_pages"⟩,
      ⟨"/shop/_states/cart"⟩] = Path.sort directories := by
    refine Path.eq_of_perm_of_pairwise (by decide +kernel) ?_ (Path.pairwise_sort directories)
      (.trans (by decide +kernel) (Path.perm_sort directories).symm)
    unfold Path.NotBehind
    decide +kernel
  have hsorted' : [⟨"/shop/_states/_pages/index.ts"⟩, ⟨"/shop/_states/cart.ts"⟩,
      ⟨"/shop/_states/cart.type.ts"⟩, ⟨"/shop/_states/session.ts"⟩] = Path.sort files := by
    refine Path.eq_of_perm_of_pairwise (by decide +kernel) ?_ (Path.pairwise_sort files)
      (.trans (by decide +kernel) (Path.perm_sort files).symm)
    unfold Path.NotBehind
    decide +kernel
  have hcheck : check walked = [.atStart "FLA009" "_states" (mixedMessage "_states"),
      .atStart "FLA009" "_states" (bothMessage "cart" "_states")] := by
    simp only [walked, Context.withEntries, ← hsorted, ← hsorted']
    decide +kernel
  exact ⟨hdirectories, hfiles, hdistinct, hcheck,
    check_reports_forms (Context.ofConfig ⟨"/shop"⟩ .standard) hdirectories hfiles hdistinct⟩

end LayerLint.Rule.ModuleForm
