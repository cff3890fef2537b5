import LayerLint.FileTree
import LayerLint.Proofs.Path.Absolute

/-! # What a walk meets

A walk meets what names lead to, unless a directory that is skipped stands on the way. So it meets
the same if these directories are taken out of the tree.
-/

namespace LayerLint.FileTree

theorem exists_iff {p : FileTree → Prop} :
    (∃ tree, p tree) ↔ (∃ bytes, p (file bytes)) ∨ ∃ entries, p (directory entries) := by
  constructor
  · rintro ⟨bytes | entries, h⟩
    · exact .inl ⟨bytes, h⟩
    · exact .inr ⟨entries, h⟩
  · rintro (⟨bytes, h⟩ | ⟨entries, h⟩) <;> exact ⟨_, h⟩

mutual

/-- The tree without the directories below it that `skips` names. -/
def pruned (skips : String → Bool) : FileTree → FileTree
  | file bytes => file bytes
  | directory entries => directory (prunedEntries skips entries)

/-- The entries without the directories among and below them that `skips` names. -/
def prunedEntries (skips : String → Bool) : List (String × FileTree) → List (String × FileTree)
  | [] => []
  | (name, node) :: rest =>
      if node.isDirectory && skips name then prunedEntries skips rest
      else (name, node.pruned skips) :: prunedEntries skips rest

end

theorem isDirectory_pruned (skips : String → Bool) (tree : FileTree) :
    (tree.pruned skips).isDirectory = tree.isDirectory := by
  cases tree <;> rfl

mutual

/-- A walk meets the same in a pruned tree. -/
theorem walk_pruned (skips : String → Bool) (path : Path) (tree : FileTree) :
    walk skips path (tree.pruned skips) =
      (walk skips path tree).map (Prod.map id (pruned skips)) := by
  cases tree with
  | file bytes => rfl
  | directory entries =>
      rw [pruned, walk, walk, List.map_cons, walkEntries_pruned skips path entries]
      rfl

theorem walkEntries_pruned (skips : String → Bool) (path : Path)
    (entries : List (String × FileTree)) :
    walkEntries skips path (prunedEntries skips entries) =
      (walkEntries skips path entries).map (Prod.map id (pruned skips)) := by
  cases entries with
  | nil => rfl
  | cons entry rest =>
      obtain ⟨name, node⟩ := entry
      rw [prunedEntries]
      split
      next hskip =>
        rw [walkEntries, if_pos hskip, List.nil_append, walkEntries_pruned skips path rest]
      next henter =>
        rw [walkEntries, walkEntries, isDirectory_pruned, if_neg henter, if_neg henter,
          List.map_append, walk_pruned skips (path.join ⟨name⟩) node,
          walkEntries_pruned skips path rest]

end

theorem walkEntries_append (skips : String → Bool) (path : Path)
    (entries more : List (String × FileTree)) :
    walkEntries skips path (entries ++ more) =
      walkEntries skips path entries ++ walkEntries skips path more := by
  induction entries with
  | nil => rfl
  | cons entry rest ih =>
      obtain ⟨name, node⟩ := entry
      rw [List.cons_append, walkEntries, walkEntries, ih, List.append_assoc]

/-- The names lead to a place of the tree, and no directory on the way is skipped. -/
inductive Reaches (skips : String → Bool) : FileTree → List String → FileTree → Prop where
  | here {tree : FileTree} : Reaches skips tree [] tree
  | inside {entries : List (String × FileTree)} {name : String} {child node : FileTree}
      {names : List String} (hmem : (name, child) ∈ entries)
      (henter : (child.isDirectory && skips name) = false)
      (hrest : Reaches skips child names node) :
      Reaches skips (directory entries) (name :: names) node

/-- The path that names lead to from another one. -/
def pathTo (path : Path) (names : List String) : Path :=
  names.foldl (fun path name => path.join ⟨name⟩) path

mutual

/-- A walk meets what names lead to. -/
theorem mem_walk_iff (skips : String → Bool) (path : Path) (tree : FileTree) {place : Path}
    {node : FileTree} :
    (place, node) ∈ walk skips path tree ↔
      ∃ names, Reaches skips tree names node ∧ place = pathTo path names := by
  cases tree with
  | file bytes =>
      rw [walk, List.mem_singleton]
      constructor
      · rintro ⟨⟩
        exact ⟨[], .here, rfl⟩
      · rintro ⟨_, ⟨⟩, rfl⟩
        rfl
  | directory entries =>
      rw [walk, List.mem_cons, mem_walkEntries_iff skips path entries]
      constructor
      · rintro (heq | ⟨name, child, names, hmem, henter, hreach, rfl⟩)
        · cases heq
          exact ⟨[], .here, rfl⟩
        · exact ⟨name :: names, .inside hmem henter hreach, rfl⟩
      · rintro ⟨names, hreach, rfl⟩
        cases hreach with
        | here => exact .inl rfl
        | inside hmem henter hrest => exact .inr ⟨_, _, _, hmem, henter, hrest, rfl⟩

theorem mem_walkEntries_iff (skips : String → Bool) (path : Path)
    (entries : List (String × FileTree)) {place : Path} {node : FileTree} :
    (place, node) ∈ walkEntries skips path entries ↔
      ∃ name child names, (name, child) ∈ entries ∧ (child.isDirectory && skips name) = false ∧
        Reaches skips child names node ∧ place = pathTo path (name :: names) := by
  cases entries with
  | nil => simp [walkEntries]
  | cons entry rest =>
      obtain ⟨first, child⟩ := entry
      rw [walkEntries, List.mem_append, mem_walkEntries_iff skips path rest]
      constructor
      · rintro (hfirst | ⟨name, child, names, hmem, hfound⟩)
        · split at hfirst
          · cases hfirst
          next henter =>
            obtain ⟨names, hreach, rfl⟩ :=
              (mem_walk_iff skips (path.join ⟨first⟩) child).mp hfirst
            exact ⟨first, child, names, List.mem_cons_self, eq_false_of_ne_true henter, hreach, rfl⟩
        · exact ⟨name, child, names, List.mem_cons_of_mem _ hmem, hfound⟩
      · rintro ⟨name, child, names, hmem, henter, hreach, rfl⟩
        rcases List.mem_cons.mp hmem with heq | hmem
        · cases heq
          left
          rw [henter, if_neg Bool.false_ne_true, mem_walk_iff]
          exact ⟨names, hreach, rfl⟩
        · exact .inr ⟨name, child, names, hmem, henter, hreach, rfl⟩

end

/-! ## Names -/

/-- Every entry of the tree is called by the name of an entry. -/
inductive IsNamed : FileTree → Prop where
  | file {bytes : ByteArray} : IsNamed (file bytes)
  | directory {entries : List (String × FileTree)}
      (hname : ∀ entry ∈ entries, Path.IsName entry.1)
      (hnode : ∀ entry ∈ entries, IsNamed entry.2) : IsNamed (directory entries)

theorem Reaches.isName {skips : String → Bool} {tree node : FileTree} {names : List String}
    (h : Reaches skips tree names node) (hnamed : tree.IsNamed) :
    ∀ name ∈ names, Path.IsName name := by
  induction h with
  | here => exact List.forall_mem_nil _
  | inside hmem henter hrest ih =>
      cases hnamed with
      | directory hname hnode =>
          exact List.forall_mem_cons.mpr ⟨hname _ hmem, ih (hnode _ hmem)⟩

theorem pathTo_ofNames {above names : List String} (habove : ∀ name ∈ above, Path.IsName name)
    (hnames : ∀ name ∈ names, Path.IsName name) :
    pathTo (.ofNames above) names = .ofNames (above ++ names) := by
  induction names generalizing above with
  | nil =>
      rw [List.append_nil]
      rfl
  | cons name rest ih =>
      obtain ⟨hname, hrest⟩ := List.forall_mem_cons.mp hnames
      have hbelow : ∀ other ∈ above ++ [name], Path.IsName other :=
        List.forall_mem_append.mpr ⟨habove, List.forall_mem_singleton.mpr hname⟩
      rw [List.append_cons, ← ih hbelow hrest, ← Path.join_ofNames habove hname]
      rfl

end LayerLint.FileTree
