import LayerLint.Path.Basic
import LayerLint.Text.Utf8

/-! # File trees

A file tree is a file with its bytes or a directory with named entries. Looking a path up follows
its components; going up from the root stays there. Walking lists the directories and files below
a place and does not enter directories with certain names.
-/

namespace LayerLint

/-- A file, or a directory and what is in it. -/
inductive FileTree where
  | file (bytes : ByteArray)
  | directory (entries : List (String × FileTree))

namespace FileTree

/-- A directory without entries. -/
def empty : FileTree := directory []

instance : Inhabited FileTree := ⟨empty⟩

/-- Whether the tree is a directory. -/
def isDirectory : FileTree → Bool
  | directory _ => true
  | file _ => false

/-- The entries of a directory; a file has none. -/
def entries : FileTree → List (String × FileTree)
  | directory entries => entries
  | file _ => []

/-- Puts an entry in place of the one of the same name, or behind all others. -/
def place (name : String) (node : FileTree) :
    List (String × FileTree) → List (String × FileTree)
  | [] => [(name, node)]
  | entry :: rest =>
      if entry.1 = name then (name, node) :: rest else entry :: place name node rest

/-- The tree with `node` at the place that the names lead to. Directories on the way are made; a
file on the way gives way to one. -/
def insert (tree : FileTree) : List String → FileTree → FileTree
  | [], node => node
  | name :: rest, node =>
      let child := (tree.entries.lookup name).getD empty
      directory (place name (child.insert rest node) tree.entries)

/-- The place that components lead to from a place, which is given with the directories above it,
the nearest one first. -/
def follow : List FileTree → List Path.Component → Option FileTree
  | [], _ => none
  | node :: _, [] => some node
  | node :: above, .name name :: rest =>
      (node.entries.lookup name).bind fun child => follow (child :: node :: above) rest
  | node :: above, .up :: rest =>
      -- above the root there is only the root itself
      if node.isDirectory then follow (if above.isEmpty then [node] else above) rest else none
  | node :: above, .here :: rest => if node.isDirectory then follow (node :: above) rest else none
  | node :: above, .root :: rest => follow [(node :: above).getLastD node] rest

/-- The number of bytes from which on a path is too long to be followed. -/
def pathLimit : Nat := 4096

/-- What a path leads to from the root of the tree. A path whose text ends in a slash, or in a
slash and a dot, leads to directories only; one that is too long leads nowhere, however short its
normal form is. -/
def find? (tree : FileTree) (path : Path) : Option FileTree :=
  let asksDirectory :=
    (Text.beforeEnd? "/" path.text).isSome || (Text.beforeEnd? "/." path.text).isSome
  if path.text.utf8ByteSize < pathLimit then
    (follow [tree] path.components).filter fun node => node.isDirectory || !asksDirectory
  else none

/-- Whether a path leads to a directory. -/
def hasDirectory (tree : FileTree) (path : Path) : Bool :=
  match tree.find? path with
  | some (directory _) => true
  | _ => false

/-- Whether a path leads to a file. -/
def hasFile (tree : FileTree) (path : Path) : Bool :=
  match tree.find? path with
  | some (file _) => true
  | _ => false

/-- The bytes of the file that a path leads to. -/
def bytes? (tree : FileTree) (path : Path) : Option ByteArray :=
  match tree.find? path with
  | some (file bytes) => some bytes
  | _ => none

/-- The text of the file that a path leads to, if its bytes are UTF-8. -/
def text? (tree : FileTree) (path : Path) : Option String :=
  (tree.bytes? path).bind Text.decode?

mutual

/-- The number of files and directories of a tree. -/
def size : FileTree → Nat
  | file _ => 1
  | directory entries => sizeOfEntries entries + 1

/-- The number of files and directories of some entries. -/
def sizeOfEntries : List (String × FileTree) → Nat
  | [] => 0
  | (_, node) :: rest => node.size + sizeOfEntries rest

end

mutual

/-- The tree at `path` and all that is below it, except for directories that `skips` names. -/
def walk (skips : String → Bool) (path : Path) : FileTree → List (Path × FileTree)
  | file bytes => [(path, file bytes)]
  | directory entries => (path, directory entries) :: walkEntries skips path entries

/-- The entries of the directory at `path` and all that is below them. -/
def walkEntries (skips : String → Bool) (path : Path) :
    List (String × FileTree) → List (Path × FileTree)
  | [] => []
  | (name, node) :: rest =>
      (if node.isDirectory && skips name then [] else walk skips (path.join ⟨name⟩) node) ++
        walkEntries skips path rest

end

end FileTree

end LayerLint
