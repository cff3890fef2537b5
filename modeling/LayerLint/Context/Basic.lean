import LayerLint.Alias
import LayerLint.Config.Basic
import LayerLint.Context.Listing
import LayerLint.Placement
import LayerLint.Violation

/-! # What rules look at

The context of a run holds the walked files and directories, the texts of source files, and what
specifiers are resolved by. Rules read it and nothing else.
-/

namespace LayerLint

/-- Whether a path names a source text. -/
def Path.isSource (path : Path) : Bool :=
  path.fileName?.any FileName.isSource

/-- A file as a rule for single files sees it. -/
structure SourceFile where
  path : Path
  /-- The text; empty for files that are no source texts. -/
  text : String
  /-- The path as seen from the root. -/
  relativePath : String
  name : String
  deriving Repr

namespace SourceFile

/-- A file below a root. -/
def ofPath (path : Path) (text : String) (root : Path) : SourceFile :=
  ⟨path, text, root.relativeTo path, path.fileName?.getD ""⟩

/-- The extension of the file's name. -/
def extension (file : SourceFile) : String :=
  FileName.extension file.name

/-- Whether the file is a source text. -/
def isSource (file : SourceFile) : Bool :=
  FileName.isSource file.name

/-- A violation in this file. -/
def violation (file : SourceFile) (rule : String) (line column : Nat) (message : String) :
    Violation :=
  ⟨rule, message, file.relativePath, line, column⟩

end SourceFile

/-- The context of a run. -/
structure Context where
  root : Path
  config : Config
  ranks : RankTable
  aliases : AliasTable
  /-- The walked files, in listing order. -/
  files : List Path
  /-- The walked directories, in listing order. -/
  directories : List Path
  listing : Listing
  /-- The texts of files, each given by the key of its path. -/
  texts : List (Path.Key × String)

namespace Context

/-- The context of a run that has walked nothing yet. Only the aliases of the settings are known. -/
def ofConfig (root : Path) (config : Config) : Context where
  root
  config
  ranks := Layer.ranks
  aliases := .ofList config.pathAliases.toList
  files := []
  directories := []
  listing := .empty
  texts := []

/-- The context with discovered aliases, over which those of the settings go. -/
def withDiscovered (context : Context) (discovered : AliasTable) : Context :=
  { context with aliases := discovered.overlay (.ofList context.config.pathAliases.toList) }

/-- The context with walked files and directories. -/
def withEntries (context : Context) (files directories : List Path) : Context :=
  let files := Path.sort files
  let directories := Path.sort directories
  { context with files, directories, listing := .ofPaths directories files }

/-- The context with the text of one more file, which goes before any other text of that file. -/
def withText (context : Context) (path : Path) (text : String) : Context :=
  { context with texts := (path.key, text) :: context.texts }

/-- The text of a file; empty if it was not read. -/
def text (context : Context) (path : Path) : String :=
  (context.texts.lookup path.key).getD ""

/-- A path as seen from the root. -/
def relative (context : Context) (path : Path) : String :=
  context.root.relativeTo path

/-- Whether a root-relative path has a segment that names a layer. -/
def inLayerScope (context : Context) (relative : String) : Bool :=
  Layer.occursIn context.config.layerDirs relative

/-- The files below layers. -/
def candidates (context : Context) : List Path :=
  context.files.filter fun path => context.inLayerScope (context.relative path)

/-- The directories that are named like layers. -/
def layerDirectories (context : Context) : List Path :=
  context.directories.filter fun path =>
    path.fileName?.any context.config.layerDirs.contains

/-- Where a path sits among the layers. -/
def placement? (context : Context) (path : Path) : Option Placement :=
  Placement.ofPath? path context.root context.config.layerDirs context.ranks

/-- What is in a directory, if it was walked. -/
def children? (context : Context) (directory : Path) : Option Children :=
  context.listing.children? directory

/-- A walked file. -/
def file (context : Context) (path : Path) : SourceFile :=
  .ofPath path (context.text path) context.root

end Context

end LayerLint
