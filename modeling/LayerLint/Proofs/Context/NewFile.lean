import LayerLint.Proofs.Context.Outside
import LayerLint.Proofs.FileTree.Insert
import LayerLint.Proofs.Walk

/-! # A walk with one more file

A file outside layers that is put directly into the root is listed behind all that was there before.
Its text is not read, and rules do not see it.
-/

namespace LayerLint

open FileTree (Reaches pathTo)

variable {listed listed' : List (Path × FileTree)} {entries : List (String × FileTree)}
variable {names : List String} {name : String} {path : Path}

namespace Context

variable {context : Context}

/-- Reading texts and entering files and directories do not mind each other. -/
theorem withTexts_withEntries (context : Context) (listed : List (Path × FileTree))
    (files directories : List Path) :
    (context.withEntries files directories).withTexts listed =
      (context.withTexts listed).withEntries files directories := by
  induction listed generalizing context with
  | nil => rfl
  | cons entry rest ih =>
      obtain ⟨path, bytes | entries⟩ := entry
      · rw [withTexts_cons_file, withTexts_cons_file]
        change (if path.isSource && context.inLayerScope (context.relative path) then _
          else _ : Context).withTexts rest = _
        by_cases hread : (path.isSource && context.inLayerScope (context.relative path)) = true
        · rw [if_pos hread, if_pos hread]
          exact ih (context.withText path (Text.decodeForgiving bytes))
        · rw [if_neg hread, if_neg hread]
          exact ih context
      · exact ih context

theorem withListed_eq_walked (context : Context) (listed : List (Path × FileTree)) :
    context.withListed listed =
      context.walked
        (context.withTexts (listed.filter fun entry => !entry.2.isDirectory)).texts
        ((listed.filter fun entry => !entry.2.isDirectory).map Prod.fst)
        ((listed.filter fun entry => entry.2.isDirectory).map Prod.fst) := by
  rw [withListed, withTexts_withEntries, withTexts_eq]
  rfl

/-- The text of a file outside layers is not read. -/
theorem withTexts_append_outside {bytes : ByteArray}
    (houtside : context.inLayerScope (context.relative path) = false)
    (listed : List (Path × FileTree)) :
    context.withTexts (listed ++ [(path, .file bytes)]) = context.withTexts listed := by
  have happend : context.withTexts (listed ++ [(path, .file bytes)]) =
      (context.withTexts listed).withTexts [(path, .file bytes)] := List.foldl_append
  have hskip : ¬ (path.isSource && (context.withTexts listed).inLayerScope
      ((context.withTexts listed).relative path)) = true := by
    rw [withTexts_eq]
    change ¬ (path.isSource && context.inLayerScope (context.relative path)) = true
    simp [houtside]
  rw [happend, withTexts_cons_file, if_neg hskip]
  rfl

/-- A listed file outside layers is not seen by rules. -/
theorem withListed_looksLike {bytes : ByteArray}
    (hroot : context.root = .ofNames names) (hnames : ∀ name ∈ names, Path.IsName name)
    (hname : ∀ name, context.root.fileName? = some name → name ∉ context.config.layerDirs)
    (hlayers : ∀ layer ∈ context.config.layerDirs, '/' ∉ layer.toList ∧ '\\' ∉ layer.toList)
    (hlisted : ∀ entry ∈ listed, ∃ below : List String, (∀ name ∈ below, Path.IsName name) ∧
      entry.1 = .ofNames (names ++ below))
    (houtside : context.inLayerScope (context.relative path) = false)
    (hfiles : listed'.filter (fun entry => !entry.2.isDirectory) =
      listed.filter (fun entry => !entry.2.isDirectory) ++ [(path, .file bytes)])
    (hdirectories : (listed'.filter fun entry => entry.2.isDirectory).map Prod.fst =
      (listed.filter fun entry => entry.2.isDirectory).map Prod.fst) :
    (context.withListed listed).LooksLike (context.withListed listed') := by
  rw [withListed_eq_walked, withListed_eq_walked, hfiles, hdirectories,
    withTexts_append_outside houtside, List.map_append]
  refine walked_looksLike hname hlayers ?_ (candidates_walked_eq ?_ ?_) fun _ _ => rfl
  · intro directory hdirectory
    obtain ⟨entry, hentry, rfl⟩ := List.mem_map.mp hdirectory
    obtain ⟨below, hbelow, heq⟩ := hlisted entry (List.mem_filter.mp hentry).1
    rw [heq, hroot]
    cases below with
    | nil => exact .inl (by rw [List.append_nil])
    | cons name rest =>
        refine .inr ⟨(name :: rest).map .name, List.cons_ne_nil _ _, ?_⟩
        rw [Path.normalComponents_ofNames (List.forall_mem_append.mpr ⟨hnames, hbelow⟩),
          Path.normalComponents_ofNames hnames, List.map_append, List.cons_append]
  · intro file hfile
    obtain ⟨entry, hentry, rfl⟩ := List.mem_map.mp hfile
    obtain ⟨below, hbelow, heq⟩ := hlisted entry (List.mem_filter.mp hentry).1
    rw [heq, Path.normalize_ofNames (List.forall_mem_append.mpr ⟨hnames, hbelow⟩)]
  · refine (candidates_walked_perm ..).trans (.trans ?_ (candidates_walked_perm ..).symm)
    rw [List.filter_append, List.map_singleton, List.filter_singleton, houtside]
    exact .of_eq (List.append_nil _).symm

end Context

namespace FileTree

/-- The new file is listed behind all other files. -/
theorem listed_append {bytes : ByteArray} {root : Path} (ignored : List String)
    (hname : (root.join ⟨name⟩).fileName? ≠ some metadataName) :
    ((directory (entries ++ [(name, file bytes)])).listed root ignored).filter
        (fun entry => !entry.2.isDirectory) =
      ((directory entries).listed root ignored).filter (fun entry => !entry.2.isDirectory) ++
        [(root.join ⟨name⟩, file bytes)] ∧
    (((directory (entries ++ [(name, file bytes)])).listed root ignored).filter
        fun entry => entry.2.isDirectory).map Prod.fst =
      (((directory entries).listed root ignored).filter
        fun entry => entry.2.isDirectory).map Prod.fst := by
  have hlast : walkEntries ignored.contains root [(name, file bytes)] =
      [(root.join ⟨name⟩, file bytes)] := rfl
  rw [listed, listed, walk, walk, walkEntries_append, hlast]
  -- the root itself is kept or left out on both sides
  cases hroot : root.fileName? != some metadataName <;> simp [hroot, hname, isDirectory]

end FileTree

end LayerLint
