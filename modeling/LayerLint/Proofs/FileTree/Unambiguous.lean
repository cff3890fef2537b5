import LayerLint.Proofs.FileTree.Insert
import LayerLint.Proofs.FileTree.Walk
import LayerLint.Proofs.Path.Join

/-! # Meeting each place once

In a file system no directory has two entries of one name. So names lead to one place at most, and a
walk meets no place twice.
-/

namespace LayerLint.FileTree

variable {skips : String → Bool} {path place : Path} {tree child node : FileTree}
variable {entries : List (String × FileTree)} {name : String} {names others rest : List String}

/-- No directory of the tree has two entries of one name. -/
inductive IsUnambiguous : FileTree → Prop where
  | file {bytes : ByteArray} : IsUnambiguous (file bytes)
  | directory {entries : List (String × FileTree)} (hkeys : (entries.map Prod.fst).Nodup)
      (hnode : ∀ entry ∈ entries, IsUnambiguous entry.2) : IsUnambiguous (directory entries)

theorem isUnambiguous_cons_iff {entry : String × FileTree} :
    (directory (entry :: entries)).IsUnambiguous ↔ entry.1 ∉ entries.map Prod.fst ∧
      entry.2.IsUnambiguous ∧ (directory entries).IsUnambiguous := by
  constructor
  · rintro (_ | ⟨hkeys, hnode⟩)
    obtain ⟨hfirst, hkeys⟩ := List.nodup_cons.mp hkeys
    obtain ⟨hentry, hnode⟩ := List.forall_mem_cons.mp hnode
    exact ⟨hfirst, hentry, .directory hkeys hnode⟩
  · rintro ⟨hfirst, hentry, _ | ⟨hkeys, hnode⟩⟩
    exact .directory (List.nodup_cons.mpr ⟨hfirst, hkeys⟩)
      (List.forall_mem_cons.mpr ⟨hentry, hnode⟩)

theorem isNamed_cons_iff {entry : String × FileTree} :
    (directory (entry :: entries)).IsNamed ↔ Path.IsName entry.1 ∧ entry.2.IsNamed ∧
      (directory entries).IsNamed := by
  constructor
  · rintro (_ | ⟨hname, hnode⟩)
    obtain ⟨hfirst, hname⟩ := List.forall_mem_cons.mp hname
    obtain ⟨hentry, hnode⟩ := List.forall_mem_cons.mp hnode
    exact ⟨hfirst, hentry, .directory hname hnode⟩
  · rintro ⟨hfirst, hentry, _ | ⟨hname, hnode⟩⟩
    exact .directory (List.forall_mem_cons.mpr ⟨hfirst, hname⟩)
      (List.forall_mem_cons.mpr ⟨hentry, hnode⟩)

/-! ## Names lead to one place -/

/-- The names of directories on the way to a place, its own among them if it is one. -/
def directoriesOnWay (node : FileTree) (names : List String) : List String :=
  if node.isDirectory then names else names.dropLast

theorem isDirectory_of_nodeAt? (h : tree.nodeAt? (name :: rest) = some node) :
    tree.isDirectory = true := by
  cases tree with
  | file bytes => cases h
  | directory entries => rfl

theorem directoriesOnWay_cons (h : child.nodeAt? rest = some node) (name : String) :
    directoriesOnWay node (name :: rest) =
      (if child.isDirectory then [name] else []) ++ directoriesOnWay node rest := by
  unfold directoriesOnWay
  cases rest with
  | nil =>
      cases h
      split <;> rfl
  | cons next rest =>
      rw [if_pos (isDirectory_of_nodeAt? h)]
      split <;> rfl

theorem reaches_cons_iff (hkeys : (entries.map Prod.fst).Nodup) :
    Reaches skips (directory entries) (name :: rest) node ↔
      ∃ child, entries.lookup name = some child ∧ (child.isDirectory && skips name) = false ∧
        Reaches skips child rest node := by
  constructor
  · intro h
    cases h with
    | inside hmem henter hrest =>
        exact ⟨_, (Dict.lookup_eq_some_iff_mem hkeys).mpr hmem, henter, hrest⟩
  · rintro ⟨child, hchild, henter, hrest⟩
    exact .inside ((Dict.lookup_eq_some_iff_mem hkeys).mp hchild) henter hrest

theorem isUnambiguous_of_lookup (h : (directory entries).IsUnambiguous)
    (hchild : entries.lookup name = some child) : child.IsUnambiguous := by
  cases h with
  | directory hkeys hnode => exact hnode _ ((Dict.lookup_eq_some_iff_mem hkeys).mp hchild)

/-- A walk reaches what names lead to if it skips no directory on the way. -/
theorem reaches_iff (h : tree.IsUnambiguous) :
    Reaches skips tree names node ↔ tree.nodeAt? names = some node ∧
      ∀ name ∈ directoriesOnWay node names, skips name = false := by
  induction names generalizing tree with
  | nil =>
      constructor
      · rintro ⟨⟩
        exact ⟨rfl, by simp [directoriesOnWay]⟩
      · rintro ⟨⟨⟩, -⟩
        exact .here
  | cons name rest ih =>
      cases h with
      | file => exact ⟨nofun, nofun⟩
      | @directory entries hkeys hnode =>
          have hunambiguous : (directory entries).IsUnambiguous := .directory hkeys hnode
          rw [reaches_cons_iff hkeys, nodeAt?, Option.bind_eq_some_iff]
          constructor
          · rintro ⟨child, hchild, henter, hrest⟩
            have hbelow := isUnambiguous_of_lookup hunambiguous hchild
            obtain ⟨hfound, hways⟩ := (ih hbelow).mp hrest
            refine ⟨⟨child, hchild, hfound⟩, ?_⟩
            rw [directoriesOnWay_cons hfound, List.forall_mem_append]
            refine ⟨?_, hways⟩
            split
            next hdirectory => simpa [hdirectory] using henter
            next => exact List.forall_mem_nil _
          · rintro ⟨⟨child, hchild, hfound⟩, hways⟩
            rw [directoriesOnWay_cons hfound, List.forall_mem_append] at hways
            have hbelow := isUnambiguous_of_lookup hunambiguous hchild
            refine ⟨child, hchild, ?_, (ih hbelow).mpr ⟨hfound, hways.2⟩⟩
            rw [Bool.and_eq_false_imp]
            intro hdirectory
            exact hways.1 name (by simp [hdirectory])

/-- Names that lead somewhere are names of entries. -/
theorem isName_of_nodeAt? (hnamed : tree.IsNamed) (h : tree.IsUnambiguous)
    (hfound : tree.nodeAt? names = some node) : ∀ name ∈ names, Path.IsName name := by
  have hreach : Reaches (fun _ => false) tree names node :=
    (reaches_iff h).mpr ⟨hfound, fun _ _ => rfl⟩
  exact hreach.isName hnamed

/-! ## A walk meets no place twice -/

theorem components_pathTo (path : Path) (h : ∀ name ∈ names, Path.IsName name) :
    (pathTo path names).components = path.components ++ names.map .name := by
  induction names generalizing path with
  | nil => exact (List.append_nil _).symm
  | cons name rest ih =>
      obtain ⟨hname, hrest⟩ := List.forall_mem_cons.mp h
      rw [List.map_cons, List.append_cons, ← Path.components_join_name path hname]
      exact ih _ hrest

theorem normalComponents_pathTo (path : Path) (h : ∀ name ∈ names, Path.IsName name) :
    (pathTo path names).normalComponents = path.normalComponents ++ names.map .name := by
  rw [Path.normalComponents, components_pathTo path h, List.foldl_append, Path.foldl_fold_names,
    List.reverse_append, List.reverse_reverse, Path.normalComponents]

/-- Different names lead to different paths. -/
theorem eq_of_pathTo_eq (hnames : ∀ name ∈ names, Path.IsName name)
    (hothers : ∀ name ∈ others, Path.IsName name) (h : pathTo path names = pathTo path others) :
    names = others := by
  have hcomponents := congrArg Path.components h
  rw [components_pathTo path hnames, components_pathTo path hothers,
    List.append_cancel_left_eq] at hcomponents
  exact List.map_injective_iff.mpr (fun _ _ => Path.Component.name.inj) hcomponents

theorem components_of_mem_walk (hnamed : tree.IsNamed) (h : (place, node) ∈ walk skips path tree) :
    path.components <+: place.components := by
  obtain ⟨names, hreach, rfl⟩ := (mem_walk_iff skips path tree).mp h
  rw [components_pathTo path (hreach.isName hnamed)]
  exact List.prefix_append ..

theorem components_of_mem_walkEntries (hnamed : (directory entries).IsNamed)
    (h : (place, node) ∈ walkEntries skips path entries) :
    ∃ name ∈ entries.map Prod.fst, path.components ++ [.name name] <+: place.components := by
  cases hnamed with
  | directory hname hnode =>
      obtain ⟨name, child, names, hmem, -, hreach, rfl⟩ :=
        (mem_walkEntries_iff skips path entries).mp h
      refine ⟨name, List.mem_map_of_mem hmem, ?_⟩
      have hbelow : pathTo path (name :: names) = pathTo (path.join ⟨name⟩) names := rfl
      rw [hbelow, components_pathTo _ (hreach.isName (hnode _ hmem)),
        Path.components_join_name path (hname _ hmem)]
      exact List.prefix_append ..

mutual

/-- A walk meets no place twice. -/
theorem nodup_walk (path : Path) (tree : FileTree) (hnamed : tree.IsNamed)
    (h : tree.IsUnambiguous) :
    ((walk skips path tree).map fun entry => entry.1.components).Nodup := by
  cases tree with
  | file bytes => exact List.nodup_singleton _
  | directory entries =>
      rw [walk, List.map_cons, List.nodup_cons]
      refine ⟨?_, nodup_walkEntries path entries hnamed h⟩
      intro hmem
      obtain ⟨⟨place, node⟩, hplace, heq⟩ := List.mem_map.mp hmem
      obtain ⟨_, -, hlonger⟩ := components_of_mem_walkEntries hnamed hplace
      have hlength := hlonger.length_le
      rw [heq, List.length_append] at hlength
      exact Nat.not_succ_le_self _ hlength

theorem nodup_walkEntries (path : Path) (entries : List (String × FileTree))
    (hnamed : (directory entries).IsNamed) (h : (directory entries).IsUnambiguous) :
    ((walkEntries skips path entries).map fun entry => entry.1.components).Nodup := by
  cases entries with
  | nil => exact List.nodup_nil
  | cons entry rest =>
      obtain ⟨name, node⟩ := entry
      obtain ⟨hname, hnode, hothers⟩ := isNamed_cons_iff.mp hnamed
      obtain ⟨hfirst, hbelow, hrest⟩ := isUnambiguous_cons_iff.mp h
      rw [walkEntries, List.map_append]
      refine List.Nodup.append ?_ (nodup_walkEntries path rest hothers hrest) ?_
      · split
        · exact List.nodup_nil
        · exact nodup_walk (path.join ⟨name⟩) node hnode hbelow
      · -- the two parts differ in the name that follows the path
        intro components hleft hright
        obtain ⟨⟨place, found⟩, hplace, rfl⟩ := List.mem_map.mp hright
        obtain ⟨other, hother, hprefix⟩ := components_of_mem_walkEntries hothers hplace
        split at hleft
        · cases hleft
        · obtain ⟨⟨place', found'⟩, hplace', heq⟩ := List.mem_map.mp hleft
          have hprefix' := components_of_mem_walk hnode hplace'
          rw [Path.components_join_name path hname, heq] at hprefix'
          have hlength : (path.components ++ [Path.Component.name name]).length =
              (path.components ++ [Path.Component.name other]).length := by
            rw [List.length_append, List.length_append]
            rfl
          have hsame := (List.prefix_of_prefix_length_le hprefix' hprefix hlength.le).eq_of_length
            hlength
          obtain rfl : name = other := by simpa using hsame
          exact hfirst hother

end

end LayerLint.FileTree
