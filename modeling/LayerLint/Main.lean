import LayerLint.Command.Run

/-! # The program

Commands are functions of the file tree, so the program reads what a command can look at, runs the
command, and does what comes out of it: it prints, writes a file, and ends with a code.
-/

namespace LayerLint.Program

open Command

/-- A place in the file system, as the library for files takes it. -/
def place (path : Path) : IO IO.FS.DirEntry :=
  return ⟨← IO.currentDir, path.text⟩

/-- The names that lead to a place from the root of the file system. -/
def namesOf (path : Path) : List String :=
  path.normalize.components.filterMap Path.Component.name?

/-- The tree at a place. Directories that are skipped stay empty, and so do files that are no source
texts, since no rule looks into them. -/
partial def readTree (skips : String → Bool) (entry : IO.FS.DirEntry) :
    IO (List (String × FileTree)) := do
  let kind := (← entry.path.symlinkMetadata).type
  match kind with
  | .dir =>
      if skips entry.fileName then return [(entry.fileName, .empty)]
      let children ← entry.path.readDir
      let trees ← children.toList.mapM (readTree skips)
      return [(entry.fileName, .directory trees.flatten)]
  | .file =>
      if FileName.isSource entry.fileName then
        return [(entry.fileName, .file (← IO.FS.readBinFile entry.path))]
      else return [(entry.fileName, .file .empty)]
  | _ => return []

/-- The tree with the directories and the file that a path leads through. -/
def addPath (tree : FileTree) (path : Path) : IO FileTree := do
  let mut tree := tree
  for step in (Discovery.ancestors path).reverse do
    let found := (← place step).path
    if ← found.isDir then
      if !tree.hasDirectory step.normalize then tree := tree.insert (namesOf step) .empty
    else if ← found.pathExists then
      tree := tree.insert (namesOf step) (.file (← IO.FS.readBinFile found))
  return tree

/-- The tree with the compiler settings at a path and all that they extend. -/
partial def addSettings (tree : FileTree) (visited : List Path) (path : Path) : IO FileTree := do
  if visited.contains path then return tree
  let tree ← addPath tree path
  match (CompilerSettings.read? tree path).bind (·.parent) with
  | some parent => addSettings tree (path :: visited) parent.normalize
  | none => return tree

/-- The tree with the files at some names below a root. -/
def addFiles (tree : FileTree) (root : Path) (names : List String) : IO FileTree :=
  names.foldlM (fun tree name => addPath tree (root.join ⟨name⟩)) tree

/-- The tree with everything below a root that is not in an ignored directory. -/
def addBelow (tree : FileTree) (root : Path) (ignored : List String) : IO FileTree := do
  let children ← (← place root).path.readDir
  let trees ← children.toList.mapM (readTree ignored.contains)
  return trees.flatten.foldl
    (fun tree child => tree.insert (namesOf root ++ [child.1]) child.2) tree

/-- The tree with what the command `check` looks at. -/
def addRoot (tree : FileTree) (root : Path) (asked : Option String) : IO FileTree := do
  let tree ← addPath tree root
  if !tree.hasDirectory root then return tree
  let configFiles := asked.toList ++ configNames
  let withConfig ← addFiles tree root configFiles
  match Config.load withConfig (configPath withConfig root asked) with
  | .error _ => return withConfig
  | .ok loaded =>
      let tree ← addBelow tree root loaded.config.ignoreDirs
      let tree ← addFiles tree root configFiles
      let tree ← (Discovery.ancestors root.normalize).foldlM
        (fun tree directory => addFiles tree directory Discovery.markerNames) tree
      match Discovery.marker? tree root with
      | some marker => addSettings tree [] marker
      | none => return tree

/-- What a command line can look at. -/
def surroundings (arguments : List String) : IO Surroundings := do
  let directory : Path := ⟨(← IO.currentDir).toString⟩
  let environment ← IO.getEnv "FLA_LINT_CONFIG"
  let tree ← addPath .empty directory
  match Invocation.ofArguments arguments environment with
  | .ok ⟨.check path _, config⟩ =>
      return ⟨← addRoot tree (absolute directory ⟨path⟩) config, directory, environment⟩
  | .ok ⟨.init _, _⟩ =>
      return ⟨← addPath tree (directory.join ⟨configName⟩), directory, environment⟩
  | _ => return ⟨tree, directory, environment⟩

end LayerLint.Program

/-- Runs the command that the arguments ask for. -/
def main (arguments : List String) : IO UInt32 := do
  let outcome := LayerLint.Command.run (← LayerLint.Program.surroundings arguments) arguments
  match outcome.written with
  | some (path, text) => IO.FS.writeFile (← LayerLint.Program.place path).path text
  | none => pure ()
  IO.print outcome.output
  if !outcome.complaint.isEmpty then IO.eprintln outcome.complaint
  return outcome.exitCode
