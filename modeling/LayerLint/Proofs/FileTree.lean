import LayerLint.FileTree
import LayerLint.Proofs.Path.Absolute
import Mathlib.Data.List.Nodup
import Mathlib.Data.List.Perm.Subperm

/-! # The places of a file tree

Absolute paths in normal form lead to different places of a tree, if they lead anywhere, and a tree
has as many places as it has files and directories.
-/

namespace LayerLint.FileTree

mutual

/-- The names that lead from a tree to its places. -/
def places : FileTree → List (List String)
  | file _ => [[]]
  | directory entries => [] :: placesOfEntries entries

/-- The names that lead to the places of some entries. -/
def placesOfEntries : List (String × FileTree) → List (List String)
  | [] => []
  | (name, node) :: rest => (places node).map (name :: ·) ++ placesOfEntries rest

end

mutual

theorem length_places (tree : FileTree) : tree.places.length = tree.size := by
  cases tree with
  | file bytes => rfl
  | directory entries => rw [places, size, List.length_cons, length_placesOfEntries entries]

theorem length_placesOfEntries (entries : List (String × FileTree)) :
    (placesOfEntries entries).length = sizeOfEntries entries := by
  cases entries with
  | nil => rfl
  | cons entry rest =>
      obtain ⟨name, node⟩ := entry
      rw [placesOfEntries, sizeOfEntries, List.length_append, List.length_map, length_places node,
        length_placesOfEntries rest]

end

variable {tree node : FileTree} {names : List String}

theorem mem_placesOfEntries {name : String} {entries : List (String × FileTree)}
    (h : entries.lookup name = some node) (hnames : names ∈ node.places) :
    name :: names ∈ placesOfEntries entries := by
  induction entries with
  | nil => cases h
  | cons entry rest ih =>
      obtain ⟨first, child⟩ := entry
      rw [placesOfEntries, List.mem_append]
      rw [List.lookup_cons] at h
      split at h
      next heq =>
        obtain rfl := eq_of_beq heq
        cases h
        exact .inl (List.mem_map_of_mem hnames)
      next => exact .inr (ih h)

/-- What names lead to is a place of the tree. -/
theorem mem_places_of_follow {above : List FileTree}
    (h : (follow (tree :: above) (names.map .name)).isSome = true) : names ∈ tree.places := by
  induction names generalizing tree above with
  | nil => cases tree <;> simp [places]
  | cons name rest ih =>
      rw [List.map_cons, follow] at h
      obtain ⟨found, hfound⟩ := Option.isSome_iff_exists.mp h
      obtain ⟨child, hchild, hrest⟩ := Option.bind_eq_some_iff.mp hfound
      have hplaces := ih (Option.isSome_of_mem hrest)
      cases tree with
      | file bytes => cases hchild
      | directory entries =>
          rw [places]
          exact List.mem_cons_of_mem _ (mem_placesOfEntries hchild hplaces)

theorem namesOf_mem_places {path : Path} (habsolute : path.isAbsolute = true)
    (hnormal : path.normalize = path) (hfind : (tree.find? path).isSome = true) :
    path.namesOf ∈ tree.places := by
  obtain ⟨names, hnames, heq⟩ := Path.exists_normalize_eq_ofNames habsolute
  rw [hnormal] at heq
  subst heq
  have hfollow : (follow [tree] (Path.ofNames names).components).isSome = true := by
    rw [find?] at hfind
    split at hfind
    · obtain ⟨node, hnode⟩ := Option.isSome_iff_exists.mp hfind
      rw [(Option.filter_eq_some_iff.mp hnode).1]
      rfl
    · cases hfind
  rw [Path.components_ofNames hnames] at hfollow
  rw [Path.namesOf_ofNames hnames]
  exact mem_places_of_follow hfollow

/-- Different paths in normal form that lead somewhere are no more than the tree has files and
directories. -/
theorem length_le_size {paths : List Path} (hnodup : paths.Nodup)
    (habsolute : ∀ path ∈ paths, path.isAbsolute = true)
    (hnormal : ∀ path ∈ paths, path.normalize = path)
    (hfind : ∀ path ∈ paths, (tree.find? path).isSome = true) : paths.length ≤ tree.size := by
  have hdistinct : (paths.map Path.namesOf).Nodup := by
    apply List.Nodup.map_on _ hnodup
    intro first hfirst second hsecond heq
    rw [← Path.ofNames_namesOf (habsolute first hfirst) (hnormal first hfirst), heq,
      Path.ofNames_namesOf (habsolute second hsecond) (hnormal second hsecond)]
  have hplaces : paths.map Path.namesOf ⊆ tree.places := by
    intro names hnames
    obtain ⟨path, hpath, rfl⟩ := List.mem_map.mp hnames
    exact namesOf_mem_places (habsolute path hpath) (hnormal path hpath) (hfind path hpath)
  calc paths.length = (paths.map Path.namesOf).length := List.length_map _ |>.symm
    _ ≤ tree.places.length := (List.subperm_of_subset hdistinct hplaces).length_le
    _ = tree.size := length_places tree

end LayerLint.FileTree
