import LayerLint.Alias
import LayerLint.Dict
import LayerLint.FileName
import LayerLint.FileTree
import LayerLint.Json.Commented
import LayerLint.Json.Document

/-! # Aliases from compiler settings

The aliases of a project are found in the compiler settings nearest to its root, and in those that
they extend. Settings that cannot be read or understood, packages that are extended, and settings
that extend themselves in a circle contribute nothing; finding aliases never fails.
-/

namespace LayerLint

/-- What one file of compiler settings says about paths. -/
structure CompilerSettings where
  /-- The directory that holds the file. -/
  directory : Path
  /-- The directory that alias targets start from, if the file names one. -/
  baseUrl : Option Path
  /-- Alias keys and the first target of each. -/
  targets : List (String × String)
  /-- The file that these settings extend. -/
  parent : Option Path

namespace CompilerSettings

/-- The first target of an alias: a text, or the first text of an array. -/
def firstTarget? : Json → Option String
  | .string target => some target
  | .array items => items.findSome? Json.string?
  | _ => none

/-- The file that a reference leads to from a directory. Only references that begin with a dot, or
two, and a slash name files; the extension may be left out. -/
def parentPath? (directory : Path) (reference : String) : Option Path :=
  if Text.beginsWith "./" reference || Text.beginsWith "../" reference then
    let path := directory.join ⟨reference⟩
    if path.fileName?.map FileName.extension = some ".json" then some path
    else some ⟨path.text ++ ".json"⟩
  else none

/-- The settings that a value gives when it is read from a file in `directory`. -/
def ofJson (directory : Path) (value : Json) : CompilerSettings :=
  let options := value.get? "compilerOptions"
  { directory
    baseUrl := ((options.bind (·.get? "baseUrl")).bind Json.string?).map fun base =>
      (directory.join ⟨base⟩).normalize
    targets := (((options.bind (·.get? "paths")).bind Json.object?).getD [] |> Dict.ofList).toList
      |>.filterMap fun entry => (firstTarget? entry.2).map (entry.1, ·)
    parent := ((value.get? "extends").bind Json.string?).bind (parentPath? directory) }

/-- The settings of the file at a path, if there are any to be read. -/
def read? (tree : FileTree) (path : Path) : Option CompilerSettings := do
  let text ← tree.text? path
  let value ← Json.parse? (Json.stripComments text)
  return ofJson (path.parent?.getD ⟨""⟩) value

/-- The settings at a path and those that they extend one after another, up to the first file that
has been visited or cannot be read. Each step visits a new file, so that `steps` never need to be
more than there are files. -/
def chain (tree : FileTree) :
    (steps : Nat) → (visited : List Path) → Path → List CompilerSettings
  | 0, _, _ => []
  | steps + 1, visited, path =>
      let path := path.normalize
      if visited.contains path then []
      else match read? tree path with
        | none => []
        | some settings =>
            settings :: match settings.parent with
              | none => []
              | some parent => chain tree steps (path :: visited) parent

/-- Adds the aliases of settings to those of the settings that they extend. The directory that
targets start from is handed down together with the aliases. -/
def extend (settings : CompilerSettings) (inherited : Option Path × AliasTable) :
    Option Path × AliasTable :=
  -- a directory handed down goes before the one that holds the file
  let baseUrl := settings.baseUrl.or inherited.1
  let anchor := baseUrl.getD settings.directory
  (baseUrl, settings.targets.foldl (fun table target =>
    table.insert target.1 (Path.toPosix (anchor.join ⟨target.2⟩).normalize.text)) inherited.2)

/-- The aliases of settings and all that they extend. -/
def aliases (settings : List CompilerSettings) : AliasTable :=
  (settings.foldr extend (none, .empty)).2

end CompilerSettings

/-- The aliases that were found, and the file where the search for them ended. -/
structure Discovery where
  source : Option Path
  aliases : AliasTable

namespace Discovery

/-- The names of files with compiler settings, in the order in which they are looked for. -/
def markerNames : List String := ["tsconfig.json", "jsconfig.json"]

/-- The paths with these components, given from the last to the first, and with fewer and fewer
of them. An absolute path keeps the root. -/
def shortenings : List Path.Component → List Path
  | [] => [.ofComponents []]
  | [.root] => [.ofComponents [.root]]
  | component :: below => .ofComponents (component :: below).reverse :: shortenings below

/-- A directory and all directories above it, the nearest one first. -/
def ancestors (path : Path) : List Path :=
  shortenings path.components.reverse

/-- The nearest file with compiler settings in or above a directory. -/
def marker? (tree : FileTree) (start : Path) : Option Path :=
  (ancestors start.normalize).findSome? fun directory =>
    (markerNames.map fun name => directory.join ⟨name⟩).find? tree.hasFile

/-- The aliases for a directory. -/
def ofDirectory (tree : FileTree) (directory : Path) : Discovery :=
  match marker? tree directory with
  | none => ⟨none, .empty⟩
  | some marker =>
      let settings := CompilerSettings.chain tree tree.size [] marker
      ⟨some marker, CompilerSettings.aliases settings⟩

end Discovery

end LayerLint
