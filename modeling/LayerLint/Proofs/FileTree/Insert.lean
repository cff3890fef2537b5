import LayerLint.FileTree
import LayerLint.Proofs.Dict
import LayerLint.Proofs.Path.Absolute

/-! # A tree with one more file

A file that is put at a new place of a directory stands behind the other entries there. Every other
path leads to the file that it led to before, or still to none.
-/

namespace LayerLint.FileTree

variable {tree first second node child : FileTree} {entries : List (String × FileTree)}
variable {names other : List String} {name : String} {bytes : ByteArray}

/-! ## Places that names lead to -/

/-- What names lead to. -/
def nodeAt? (tree : FileTree) : List String → Option FileTree
  | [] => some tree
  | name :: rest => (tree.entries.lookup name).bind (nodeAt? · rest)

/-- The bytes of the file that names lead to. -/
def bytesAt? (tree : FileTree) (names : List String) : Option ByteArray :=
  match tree.nodeAt? names with
  | some (file bytes) => some bytes
  | _ => none

theorem nodeAt?_append (tree : FileTree) (names more : List String) :
    tree.nodeAt? (names ++ more) = (tree.nodeAt? names).bind (nodeAt? · more) := by
  induction names generalizing tree with
  | nil => rfl
  | cons name rest ih =>
      rw [List.cons_append, nodeAt?, nodeAt?, Option.bind_assoc]
      exact congrArg _ (funext ih)

theorem bytesAt?_cons (tree : FileTree) (name : String) (rest : List String) :
    tree.bytesAt? (name :: rest) = (tree.entries.lookup name).bind (bytesAt? · rest) := by
  rw [bytesAt?, nodeAt?]
  cases tree.entries.lookup name <;> rfl

theorem follow_names (node : FileTree) (above : List FileTree) (names : List String) :
    follow (node :: above) (names.map .name) = node.nodeAt? names := by
  induction names generalizing node above with
  | nil => rfl
  | cons name rest ih =>
      rw [List.map_cons, follow, nodeAt?]
      exact congrArg _ (funext fun child => ih child (node :: above))

theorem follow_ofNames (tree : FileTree) (h : ∀ name ∈ names, Path.IsName name) :
    follow [tree] (Path.ofNames names).components = tree.nodeAt? names := by
  rw [Path.components_ofNames h]
  exact follow_names tree [] names

/-- A short path leads to the directory that its names lead to. -/
theorem find?_ofNames_eq_directory_iff (h : ∀ name ∈ names, Path.IsName name) :
    tree.find? (.ofNames names) = some (directory entries) ↔
      (Path.ofNames names).text.utf8ByteSize < pathLimit ∧
        tree.nodeAt? names = some (directory entries) := by
  rw [find?, follow_ofNames tree h]
  split
  next hshort =>
    rw [Option.filter_eq_some_iff, and_iff_right hshort]
    exact and_iff_left rfl
  next hlong => simp [hlong]

theorem find?_ofNames_eq_none (h : ∀ name ∈ names, Path.IsName name)
    (hnone : tree.nodeAt? names = none) : tree.find? (.ofNames names) = none := by
  rw [find?, follow_ofNames tree h, hnone]
  split <;> rfl

/-- A path leads to the file that its names lead to, or to no file in any tree. -/
theorem bytes?_ofNames (h : ∀ name ∈ names, Path.IsName name) :
    (∀ tree : FileTree, tree.bytes? (.ofNames names) = tree.bytesAt? names) ∨
      ∀ tree : FileTree, tree.bytes? (.ofNames names) = none := by
  by_cases hshort : (Path.ofNames names).text.utf8ByteSize < pathLimit
  · cases hasks : (Text.beforeEnd? "/" (Path.ofNames names).text).isSome ||
        (Text.beforeEnd? "/." (Path.ofNames names).text).isSome with
    | false =>
        left
        intro tree
        rw [bytes?, find?, follow_ofNames tree h, if_pos hshort, hasks, bytesAt?]
        rcases tree.nodeAt? names with _ | (_ | _) <;> rfl
    | true =>
        right
        intro tree
        rw [bytes?, find?, follow_ofNames tree h, if_pos hshort, hasks]
        rcases tree.nodeAt? names with _ | (_ | _) <;> rfl
  · right
    intro tree
    rw [bytes?, find?, if_neg hshort]

theorem hasFile_eq_isSome (tree : FileTree) (path : Path) :
    tree.hasFile path = (tree.bytes? path).isSome := by
  unfold hasFile bytes?
  rcases tree.find? path with _ | (_ | _) <;> rfl

/-! ## Inserting -/

theorem lookup_place (name other : String) (node : FileTree)
    (entries : List (String × FileTree)) :
    (place name node entries).lookup other =
      if other = name then some node else entries.lookup other := by
  induction entries with
  | nil => rw [place, Dict.lookup_cons_eq_ite]
  | cons entry rest ih =>
      unfold place
      split
      next heq =>
        rw [Dict.lookup_cons_eq_ite, Dict.lookup_cons_eq_ite, heq]
        split <;> rfl
      next hne =>
        rw [Dict.lookup_cons_eq_ite, Dict.lookup_cons_eq_ite, ih]
        by_cases hother : other = name
        · rw [if_pos hother, if_pos hother, if_neg (hother ▸ Ne.symm hne)]
        · rw [if_neg hother, if_neg hother]

theorem place_eq_append (h : entries.lookup name = none) (node : FileTree) :
    place name node entries = entries ++ [(name, node)] := by
  induction entries with
  | nil => rfl
  | cons entry rest ih =>
      rw [List.lookup_cons] at h
      split at h
      next => cases h
      next hne =>
        have hname : entry.1 ≠ name := fun heq => by simp [heq] at hne
        rw [place, if_neg hname, ih h, List.cons_append]

/-- The directory has the file behind its other entries. -/
theorem nodeAt?_insert (hfind : tree.nodeAt? names = some (directory entries))
    (habsent : entries.lookup name = none) (node : FileTree) :
    (tree.insert (names ++ [name]) node).nodeAt? names =
      some (directory (entries ++ [(name, node)])) := by
  induction names generalizing tree with
  | nil =>
      cases hfind
      rw [List.nil_append, insert]
      exact congrArg (fun entries => some (directory entries)) (place_eq_append habsent node)
  | cons first rest ih =>
      obtain ⟨child, hchild, hrest⟩ := Option.bind_eq_some_iff.mp hfind
      rw [List.cons_append, insert, hchild]
      change ((place first _ tree.entries).lookup first).bind _ = _
      rw [lookup_place, if_pos rfl]
      exact ih hrest

theorem bytesAt?_file (bytes : ByteArray) (names : List String) :
    (file bytes).bytesAt? names = if names = [] then some bytes else none := by
  cases names with
  | nil => rfl
  | cons name rest =>
      rw [bytesAt?_cons, if_neg (List.cons_ne_nil name rest)]
      rfl

theorem bytesAt?_insert_cons (tree node : FileTree) (first second : String)
    (rest more : List String) :
    (tree.insert (first :: rest) node).bytesAt? (second :: more) =
      if second = first then
        (((tree.entries.lookup first).getD empty).insert rest node).bytesAt? more
      else tree.bytesAt? (second :: more) := by
  rw [bytesAt?_cons, bytesAt?_cons, insert]
  change ((place first _ tree.entries).lookup second).bind _ = _
  rw [lookup_place]
  split <;> rfl

theorem bytesAt?_nil_of_lookup (h : tree.entries.lookup name = some child) :
    tree.bytesAt? [] = none := by
  cases tree with
  | file bytes => cases h
  | directory entries => rfl

/-- Only the new place leads to another file than before. -/
theorem bytesAt?_insert (hfind : tree.nodeAt? names = some (directory entries))
    (habsent : entries.lookup name = none) (bytes : ByteArray) (other : List String) :
    (tree.insert (names ++ [name]) (file bytes)).bytesAt? other =
      if other = names ++ [name] then some bytes else tree.bytesAt? other := by
  induction names generalizing tree other with
  | nil =>
      cases hfind
      cases other with
      | nil => rfl
      | cons second more =>
          rw [List.nil_append, bytesAt?_insert_cons, insert, bytesAt?_file]
          by_cases hsecond : second = name
          · subst hsecond
            rw [if_pos rfl, bytesAt?_cons]
            simp [FileTree.entries, habsent]
          · simp [hsecond]
  | cons first rest ih =>
      obtain ⟨child, hchild, hrest⟩ := Option.bind_eq_some_iff.mp hfind
      cases other with
      | nil => exact (bytesAt?_nil_of_lookup hchild).symm
      | cons second more =>
          rw [List.cons_append, bytesAt?_insert_cons, hchild, Option.getD_some, ih hrest]
          by_cases hsecond : second = first
          · subst hsecond
            simp [bytesAt?_cons, hchild]
          · simp [hsecond]

/-- The new path leads to the file, if it can lead to one. -/
theorem bytes?_insert_new (hnames : ∀ other ∈ names ++ [name], Path.IsName other)
    (hfind : tree.nodeAt? names = some (directory entries)) (habsent : entries.lookup name = none)
    (bytes : ByteArray) :
    (tree.insert (names ++ [name]) (file bytes)).bytes? (.ofNames (names ++ [name])) = some bytes ∨
      (tree.insert (names ++ [name]) (file bytes)).bytes? (.ofNames (names ++ [name])) = none := by
  rcases bytes?_ofNames hnames with hreads | hnone
  · left
    rw [hreads, bytesAt?_insert hfind habsent, if_pos rfl]
  · exact .inr (hnone _)

/-- The later tree has one more file, and otherwise the same files. -/
structure Adds (tree later : FileTree) (new : Path) : Prop where
  absent : tree.bytes? new = none
  same : ∀ path : Path, path.isAbsolute = true → path.normalize = path → path ≠ new →
    later.bytes? path = tree.bytes? path

theorem Adds.hasFile_eq {later : FileTree} {new path : Path} (h : tree.Adds later new)
    (habsolute : path.isAbsolute = true) (hnormal : path.normalize = path) (hne : path ≠ new) :
    later.hasFile path = tree.hasFile path := by
  rw [hasFile_eq_isSome, hasFile_eq_isSome, h.same path habsolute hnormal hne]

theorem adds_insert (hnames : ∀ other ∈ names ++ [name], Path.IsName other)
    (hfind : tree.nodeAt? names = some (directory entries)) (habsent : entries.lookup name = none)
    (bytes : ByteArray) :
    tree.Adds (tree.insert (names ++ [name]) (file bytes)) (.ofNames (names ++ [name])) where
  absent := by
    rcases bytes?_ofNames hnames with hreads | hnone
    · rw [hreads, bytesAt?, nodeAt?_append, hfind, Option.bind_some, nodeAt?, FileTree.entries,
        habsent]
      rfl
    · exact hnone tree
  same := by
    intro path habsolute hnormal hne
    obtain ⟨other, hother, heq⟩ := Path.exists_normalize_eq_ofNames habsolute
    rw [hnormal] at heq
    subst heq
    rcases bytes?_ofNames hother with hreads | hnone
    · rw [hreads, hreads, bytesAt?_insert hfind habsent, if_neg]
      rintro rfl
      exact hne rfl
    · rw [hnone, hnone]

end LayerLint.FileTree
