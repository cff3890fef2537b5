import LayerLint.Context.Basic
import LayerLint.Discovery

/-! # Walking a tree

The context of a run is made from a file tree: its root is walked, ignored directories are not
entered, the texts of source files below layers are read, and aliases are discovered if they are
wanted.
-/

namespace LayerLint

/-- The name of directory metadata that file managers leave behind; it is never listed. -/
def metadataName : String := ".DS_Store"

/-- What is listed when a root is walked: the root, and all that is below it outside ignored
directories. -/
def FileTree.listed (tree : FileTree) (root : Path) (ignored : List String) :
    List (Path × FileTree) :=
  (tree.walk ignored.contains root).filter fun entry => entry.1.fileName? != some metadataName

namespace Context

/-- The context with the texts of those listed files that are source texts below layers. Bytes that
are no text are replaced. -/
def withTexts (context : Context) (listed : List (Path × FileTree)) : Context :=
  listed.foldl (fun context entry =>
    match entry.2 with
    | .file bytes =>
        if entry.1.isSource && context.inLayerScope (context.relative entry.1) then
          context.withText entry.1 (Text.decodeForgiving bytes)
        else context
    | .directory _ => context) context

/-- The context of a run on the directory at a path in normal form; `none` if there is none. -/
def ofTree? (tree : FileTree) (root : Path) (config : Config) (discover : Bool) :
    Option Context :=
  match tree.find? root with
  | some (.directory entries) =>
      -- the root itself is walked whatever its name
      let listed := (FileTree.directory entries).listed root config.ignoreDirs
      let (directories, files) := listed.partition fun entry => entry.2.isDirectory
      let context := Context.ofConfig root config
      let context :=
        if discover then context.withDiscovered (Discovery.ofDirectory tree root).aliases
        else context
      some <| (context.withEntries (files.map Prod.fst) (directories.map Prod.fst)).withTexts files
  | _ => none

end Context

end LayerLint
