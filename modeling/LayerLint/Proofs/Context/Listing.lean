import LayerLint.Context.Listing
import LayerLint.Proofs.Dict
import LayerLint.Proofs.Path.Entry

/-! # What listings show

The listing of a walked directory shows the names of the walked directories and files that stand in
it, and no others. Listings are read through the key of a directory; each step of their making is
described by what it does to one key.
-/

namespace LayerLint

namespace Children

theorem eq_of_names {first second : Children}
    (hdirectories : ∀ name, name ∈ first.directoryNames ↔ name ∈ second.directoryNames)
    (hfiles : ∀ name, name ∈ first.fileNames ↔ name ∈ second.fileNames) : first = second := by
  cases first
  cases second
  simp only [mk.injEq]
  exact ⟨Dict.eq_of_mem_keys_iff hdirectories, Dict.eq_of_mem_keys_iff hfiles⟩

end Children

namespace Listing

variable {listing : Listing} {key : Path.Key} {directories files : String → Prop}

/-! ## One key -/

theorem lookup_openAt (listing : Listing) (key other : Path.Key) :
    (listing.openAt key).entries.lookup other =
      if other = key then some ((listing.entries.lookup key).getD .empty)
      else listing.entries.lookup other := by
  unfold openAt
  split
  next hlisted =>
    obtain ⟨children, hchildren⟩ := Option.isSome_iff_exists.mp hlisted
    split
    next heq => rw [heq, hchildren, Option.getD_some]
    next => rfl
  next habsent =>
    rw [Option.not_isSome_iff_eq_none] at habsent
    rw [habsent, List.lookup_cons]
    by_cases heq : other = key
    · simp [heq]
    · rw [beq_false_of_ne heq, if_neg heq]

theorem lookup_changeEntry (key other : Path.Key) (update : Children → Children)
    (entries : List (Path.Key × Children)) :
    (changeEntry key update entries).lookup other =
      if other = key then (entries.lookup key).map update else entries.lookup other := by
  induction entries with
  | nil => simp [changeEntry]
  | cons entry rest ih =>
      obtain ⟨first, children⟩ := entry
      unfold changeEntry
      by_cases hfirst : first = key
      · subst hfirst
        by_cases heq : other = first
        · simp [heq]
        · simp [heq, List.lookup_cons, beq_false_of_ne heq]
      · rw [if_neg hfirst, List.lookup_cons, ih, List.lookup_cons, List.lookup_cons,
          beq_false_of_ne (Ne.symm hfirst)]
        by_cases heq : other = key
        · simp [heq, beq_false_of_ne (Ne.symm hfirst)]
        · simp [heq]

theorem lookup_changeAt (listing : Listing) (key other : Path.Key)
    (update : Children → Children) :
    (listing.changeAt key update).entries.lookup other =
      if other = key then (listing.entries.lookup key).map update
      else listing.entries.lookup other :=
  lookup_changeEntry key other update listing.entries

/-- The directory of a key is listed with exactly these names. -/
def Shows (listing : Listing) (key : Path.Key) (directories files : String → Prop) : Prop :=
  ∃ children, listing.entries.lookup key = some children ∧
    (∀ name, name ∈ children.directoryNames ↔ directories name) ∧
    ∀ name, name ∈ children.fileNames ↔ files name

/-- The path is the entry of this name in the directory of the key. -/
def IsIn (key : Path.Key) (name : String) (path : Path) : Prop :=
  path.entry? = some (key, name)

theorem Shows.congr {directories' files' : String → Prop} (h : listing.Shows key directories files)
    (hdirectories : ∀ name, directories name ↔ directories' name)
    (hfiles : ∀ name, files name ↔ files' name) : listing.Shows key directories' files' := by
  obtain ⟨children, hlookup, hshown, hshown'⟩ := h
  exact ⟨children, hlookup, fun name => (hshown name).trans (hdirectories name),
    fun name => (hshown' name).trans (hfiles name)⟩

/-! ## One path -/

theorem Shows.enterDirectory (h : listing.Shows key directories files) (path : Path) :
    (listing.enterDirectory path).Shows key (fun name => IsIn key name path ∨ directories name)
      files := by
  unfold Listing.enterDirectory
  split
  next above name hentry =>
    by_cases heq : key = above
    · subst heq
      obtain ⟨children, hlookup, hdirectories, hfiles⟩ := h
      refine ⟨children.addDirectory name, by simp [lookup_changeAt, hlookup], ?_, hfiles⟩
      intro other
      rw [Children.directoryNames, Children.addDirectory, Dict.mem_keys_insert]
      exact or_congr (by simp [IsIn, hentry, eq_comm]) (hdirectories other)
    · have hshows : listing.Shows key (fun name => IsIn key name path ∨ directories name) files :=
        h.congr (by simp [IsIn, hentry, Ne.symm heq]) (fun _ => Iff.rfl)
      obtain ⟨children, hlookup, hshown⟩ := hshows
      exact ⟨children, by rw [lookup_changeAt, if_neg heq, hlookup], hshown⟩
  next hnone => exact h.congr (by simp [IsIn, hnone]) (fun _ => Iff.rfl)

theorem Shows.enterFile (h : listing.Shows key directories files) (path : Path) :
    (listing.enterFile path).Shows key directories
      (fun name => IsIn key name path ∨ files name) := by
  unfold Listing.enterFile
  split
  next above name hentry =>
    by_cases heq : key = above
    · subst heq
      obtain ⟨children, hlookup, hdirectories, hfiles⟩ := h
      refine ⟨children.addFile name, by simp [lookup_changeAt, lookup_openAt, hlookup],
        hdirectories, ?_⟩
      intro other
      rw [Children.fileNames, Children.addFile, Dict.mem_keys_insert]
      exact or_congr (by simp [IsIn, hentry, eq_comm]) (hfiles other)
    · have hshows : listing.Shows key directories (fun name => IsIn key name path ∨ files name) :=
        h.congr (fun _ => Iff.rfl) (by simp [IsIn, hentry, Ne.symm heq])
      obtain ⟨children, hlookup, hshown⟩ := hshows
      exact ⟨children, by rw [lookup_changeAt, if_neg heq, lookup_openAt, if_neg heq, hlookup],
        hshown⟩
  next hnone => exact h.congr (fun _ => Iff.rfl) (by simp [IsIn, hnone])

/-! ## All paths -/

theorem lookup_foldl_openDirectory (key : Path.Key) (paths : List Path) (listing : Listing)
    (hempty : listing.entries.lookup key = none ∨ listing.entries.lookup key = some .empty)
    (hlisted : (listing.entries.lookup key).isSome ∨ key ∈ paths.map Path.key) :
    (paths.foldl openDirectory listing).entries.lookup key = some .empty := by
  induction paths generalizing listing with
  | nil =>
      rcases hempty with hnone | hsome
      · simp [hnone] at hlisted
      · exact hsome
  | cons path rest ih =>
      apply ih (listing.openDirectory path)
      · rw [openDirectory, lookup_openAt]
        split
        next heq => rcases hempty with h | h <;> simp [← heq, h]
        next => exact hempty
      · rw [openDirectory, lookup_openAt]
        split
        next => simp
        next hne => simpa [hne] using hlisted

theorem Shows.foldl_enterDirectory (h : listing.Shows key directories files) (paths : List Path) :
    (paths.foldl Listing.enterDirectory listing).Shows key
      (fun name => (∃ path ∈ paths, IsIn key name path) ∨ directories name) files := by
  induction paths generalizing listing directories with
  | nil => exact h.congr (by simp) (fun _ => Iff.rfl)
  | cons path rest ih =>
      refine (ih (h.enterDirectory path)).congr ?_ (fun _ => Iff.rfl)
      intro name
      simp only [List.mem_cons, exists_eq_or_imp, or_assoc, or_left_comm]

theorem Shows.foldl_enterFile (h : listing.Shows key directories files) (paths : List Path) :
    (paths.foldl Listing.enterFile listing).Shows key directories
      (fun name => (∃ path ∈ paths, IsIn key name path) ∨ files name) := by
  induction paths generalizing listing files with
  | nil => exact h.congr (fun _ => Iff.rfl) (by simp)
  | cons path rest ih =>
      refine (ih (h.enterFile path)).congr (fun _ => Iff.rfl) ?_
      intro name
      simp only [List.mem_cons, exists_eq_or_imp, or_assoc, or_left_comm]

/-- A walked directory is listed with the names of the walked directories and files in it. -/
theorem shows_ofPaths {directory : Path} {directories : List Path} (files : List Path)
    (h : directory ∈ directories) :
    (ofPaths directories files).Shows directory.key
      (fun name => ∃ path ∈ directories, IsIn directory.key name path)
      (fun name => ∃ path ∈ files, IsIn directory.key name path) := by
  have hopened : (directories.foldl openDirectory empty).Shows directory.key (fun _ => False)
      (fun _ => False) :=
    ⟨.empty, lookup_foldl_openDirectory _ _ _ (.inl rfl) (.inr (List.mem_map_of_mem h)),
      by simp [Children.empty, Children.directoryNames, Dict.empty],
      by simp [Children.empty, Children.fileNames, Dict.empty]⟩
  exact ((hopened.foldl_enterDirectory directories).foldl_enterFile files).congr (by simp) (by simp)

/-! ## Parents -/

/-- One of some paths is the entry of this name in a directory. -/
def Holds (paths : List Path) (directory : Path) (name : String) : Prop :=
  ∃ path ∈ paths, path.parent? = some directory ∧ path.fileName? = some name

theorem Holds.isName {paths : List Path} {directory : Path} {name : String}
    (h : Holds paths directory name) : Path.IsName name := by
  obtain ⟨path, -, -, hname⟩ := h
  have hmem : .name name ∈ path.components := by
    rw [Path.components_of_fileName? hname]
    exact List.mem_append_right _ List.mem_cons_self
  exact Path.isName_of_mem_components hmem

/-- Of paths in normal form, a walked directory is listed with exactly the names of those whose
parent it is. -/
theorem exists_children?_of_mem {directory : Path} {directories files : List Path}
    (hdirectories : ∀ path ∈ directories, path.normalize = path)
    (hfiles : ∀ path ∈ files, path.normalize = path) (h : directory ∈ directories) :
    ∃ children, (ofPaths directories files).children? directory = some children ∧
      (∀ name, name ∈ children.directoryNames ↔ Holds directories directory name) ∧
      ∀ name, name ∈ children.fileNames ↔ Holds files directory name := by
  have hiff {paths : List Path} (hpaths : ∀ path ∈ paths, path.normalize = path) (name : String) :
      (∃ path ∈ paths, IsIn directory.key name path) ↔ Holds paths directory name :=
    exists_congr fun path => and_congr_right fun hpath =>
      Path.entry?_eq_some_iff (hpaths path hpath) (hdirectories directory h)
  exact (shows_ofPaths files h).congr (hiff hdirectories) (hiff hfiles)

end Listing

end LayerLint
