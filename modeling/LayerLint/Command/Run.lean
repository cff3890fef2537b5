import LayerLint.Analysis
import LayerLint.Command.Arguments

/-! # Commands

What a command prints, the file that it writes, and the code that it ends with, as a function of its
arguments and of the file tree.
-/

namespace LayerLint.Command

/-- What a command leaves behind. -/
structure Outcome where
  /-- Zero if all is well, one for violations and failures, two for a wrong command line. -/
  exitCode : UInt32
  /-- What is printed. -/
  output : String
  /-- What is said about failures. -/
  complaint : String := ""
  /-- The file that is written, and its text. -/
  written : Option (Path × String) := none

namespace Outcome

/-- A command that did its work. -/
def success (output : String) : Outcome := ⟨0, output, "", none⟩

/-- A command that printed a report. -/
def reported (report : Report) (output : String) : Outcome :=
  ⟨if report.hasErrors then 1 else 0, output, "", none⟩

/-- A command that could not do its work. -/
def failure (complaint : String) : Outcome := ⟨1, "", complaint, none⟩

/-- A command line that was not understood. -/
def misuse (error : UsageError) : Outcome := ⟨2, "", error.message, none⟩

end Outcome

/-- The surroundings of a command. -/
structure Surroundings where
  tree : FileTree
  /-- The directory that the command is run in, as an absolute path. -/
  directory : Path
  /-- The settings file that the environment names. -/
  environment : Option String

/-- A path as seen from a directory, without dots between its components. A slash at the end stays,
since it says that the path must lead to a directory. -/
def absolute (directory path : Path) : Path :=
  let components := path.components.filter (· != .here)
  let start := if path.isAbsolute then [] else directory.components
  let plain := Path.ofComponents (start ++ components)
  if (Text.beforeEnd? "/" path.text).isSome then plain.join ⟨""⟩ else plain

/-! ## Settings files -/

/-- The name of a settings file. -/
def configName : String := "fla-lint.config.json"

/-- The place of a settings file beside other tools of a project. -/
def nestedConfigName : String := "linter/fla-lint.config.json"

/-- Where a project's settings file may be, in the order in which it is looked for. -/
def configNames : List String := [configName, ".fla-lint.json", nestedConfigName]

/-- The settings file for a root: the one that is asked for, whether or not it exists, or else the
first that exists. -/
def configPath (tree : FileTree) (root : Path) (asked : Option String) : Path :=
  match asked with
  | some path => root.join ⟨path⟩
  | none =>
      ((configNames.map fun name => root.join ⟨name⟩).find? tree.hasFile).getD
        (root.join ⟨nestedConfigName⟩)

/-! ## The commands -/

/-- The wording of a failure to load settings. -/
def configMessage (path : Path) : ConfigError → String
  | .unreadable => s!"Failed to read config file {path.text}"
  | .malformed => s!"Failed to parse config {path.text}"

/-- Reports the violations below a directory. -/
def check (surroundings : Surroundings) (path : String) (format : Format)
    (config : Option String) : Outcome :=
  let tree := surroundings.tree
  let root := absolute surroundings.directory ⟨path⟩
  if !tree.hasDirectory root then .failure s!"root path is not accessible: {root.text}"
  else
    let configFile := configPath tree root config
    match Config.load tree configFile with
    | .error error => .failure (configMessage configFile error)
    | .ok loaded =>
        match (Analysis.ofLoaded root loaded).run tree ruleBook with
        | .error error => .failure error.message
        | .ok report => .reported report (format.render report ++ "\n")

/-- A text with blanks behind it up to some width. -/
def padded (width : Nat) (text : String) : String :=
  text ++ String.ofList (List.replicate (width - text.length) ' ')

/-- A line of the table of rules. -/
def tableLine (id name kind description : String) : String :=
  s!"{padded 8 id} {padded 26 name} {padded 6 kind} {description}\n"

/-- The table of rules. -/
def listRules : Outcome :=
  .success <|
    "Available rules:\n\n" ++ tableLine "Code" "Name" "Kind" "Description" ++
    String.ofList (List.replicate 100 '-') ++ "\n" ++
    String.join (ruleBook.map fun rule =>
      tableLine rule.id rule.name rule.kindName rule.description) ++
    "\nDisable a rule in fla-lint.config.json, e.g.:\n" ++
    "  \x7b \"rules\": \x7b \"FLA006\": \x7b \"enabled\": false \x7d \x7d \x7d\n"

/-- What is printed when a settings file has been written. -/
def initMessage : String :=
  s!"Created {configName}\n\nNext steps:\n" ++
    s!"  1. Edit {configName} to match your layer directories\n" ++
    "  2. Run: fla-lint check src\n"

/-- Writes a settings file with all defaults. A file that is there stays, unless `force` is set; a
directory of that name is never replaced. -/
def init (surroundings : Surroundings) (force : Bool) : Outcome :=
  let path := surroundings.directory.join ⟨configName⟩
  let found := surroundings.tree.find? path
  if found.isSome && !force then
    .failure s!"Configuration file already exists at {configName}. Use --force to overwrite."
  else if surroundings.tree.hasDirectory path then .failure s!"Failed to write {configName}"
  else ⟨0, initMessage, "", some (path, Config.standard.toJson.pretty ++ "\n")⟩

/-- Does what a command line asks for. -/
def run (surroundings : Surroundings) (arguments : List String) : Outcome :=
  match Invocation.ofArguments arguments surroundings.environment with
  | .error error => .misuse error
  | .ok invocation =>
      match invocation.request with
      | .check path format => check surroundings path format invocation.config
      | .listRules => listRules
      | .init force => init surroundings force

/-- The tree after a command has written its file. -/
def Outcome.apply (outcome : Outcome) (tree : FileTree) : FileTree :=
  match outcome.written with
  | some (path, text) =>
      tree.insert (path.components.filterMap Path.Component.name?) (.file text.toUTF8)
  | none => tree

end LayerLint.Command
