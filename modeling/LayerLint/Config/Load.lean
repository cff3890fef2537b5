import LayerLint.Config.Json
import LayerLint.FileTree

/-! # Settings from a file

A project without a settings file runs with the defaults. A file that is there must be readable,
and must be JSON.
-/

namespace LayerLint

/-- Settings, and where they come from. -/
structure LoadedConfig where
  config : Config
  /-- The place of the settings file, whether there is one or not. -/
  path : Path
  /-- Whether the settings were read from that file. -/
  loaded : Bool

/-- The settings of the file at a path. -/
def Config.load (tree : FileTree) (path : Path) : Except ConfigError LoadedConfig :=
  if tree.hasFile path then
    match tree.text? path with
    | none => .error .unreadable
    | some text => (Config.parse text).map fun config => ⟨config, path, true⟩
  else .ok ⟨.standard, path, false⟩

end LayerLint
