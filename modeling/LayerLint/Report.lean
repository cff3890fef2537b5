import LayerLint.Dict
import LayerLint.Json.Basic
import LayerLint.Violation

/-! # Reports

A report lists the violations of a run in their order, and counts them for each rule.
-/

namespace LayerLint

/-- The result of a run. -/
structure Report where
  /-- How many files lie below layers. -/
  scannedFiles : Nat
  /-- How many violations each rule has; rules without any are left out. -/
  ruleCounts : Dict Nat
  /-- The settings file, as seen from the root. -/
  configPath : String
  /-- Whether the settings were read from that file. -/
  configLoaded : Bool
  /-- The violations in their order. -/
  violations : List Violation
  deriving DecidableEq

namespace Report

/-- The report of some violations, which may come in any order. -/
def ofViolations (found : List Violation) (scannedFiles : Nat) (configPath : String)
    (configLoaded : Bool) : Report where
  scannedFiles
  ruleCounts := found.foldl (fun counts violation => counts.modify violation.rule 0 (· + 1)) .empty
  configPath
  configLoaded
  violations := found.mergeSort fun first second => (first.compare second).isLE

/-- The number of violations. -/
def errorCount (report : Report) : Nat :=
  report.violations.length

/-- Whether there is a violation. -/
def hasErrors (report : Report) : Bool :=
  !report.violations.isEmpty

/-- Puts a violation before groups: into the first one if it has the same file. -/
def group (violation : Violation) :
    List (String × List Violation) → List (String × List Violation)
  | [] => [(violation.file, [violation])]
  | (file, members) :: rest =>
      if violation.file = file then (file, violation :: members) :: rest
      else (violation.file, [violation]) :: (file, members) :: rest

/-- The files with violations, and the violations of each in their order. -/
def byFile (report : Report) : List (String × List Violation) :=
  report.violations.foldr group []

/-- The violations of one rule in their order. -/
def byRule (report : Report) (rule : String) : List Violation :=
  report.violations.filter (·.rule == rule)

/-- A violation as it is written. -/
def violationJson (violation : Violation) : Json :=
  .object
    [("ruleId", .string violation.rule), ("message", .string violation.message),
     ("filePath", .string violation.file), ("line", .natural violation.line),
     ("column", .natural violation.column)]

/-- The report as it is written. -/
def toJson (report : Report) : Json :=
  .object
    [("summary", .object
      [("scannedFiles", .natural report.scannedFiles),
       ("errorCount", .natural report.errorCount),
       ("ruleCounts",
        .object (report.ruleCounts.toList.map fun entry => (entry.1, .natural entry.2))),
       ("configPath", .string report.configPath),
       ("configLoaded", .bool report.configLoaded)]),
     ("violations", .array (report.violations.map violationJson))]

end Report

end LayerLint
