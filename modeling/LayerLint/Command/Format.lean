import LayerLint.Json.Pretty
import LayerLint.Report

/-! # Forms of a printed report

A report is printed for readers, grouped by file and with colours; as JSON; or with one violation a
line.
-/

namespace LayerLint.Command

/-- The form of a printed report. -/
inductive Format where
  | text
  | json
  | compact
  deriving Repr, DecidableEq

namespace Format

/-- The form with a given name. -/
def ofName? : String → Option Format
  | "text" => some text
  | "json" => some json
  | "compact" => some compact
  | _ => none

/-- What turns the colour red. -/
def red : String := "\x1b[31m"

/-- What turns the colour green. -/
def green : String := "\x1b[32m"

/-- What turns the colour back. -/
def plain : String := "\x1b[0m"

/-- The last line of a printed report. -/
def total (report : Report) : String :=
  s!"Scanned {report.scannedFiles} files. Found {report.errorCount} errors."

/-- A violation below its file. -/
def violationText (violation : Violation) : String :=
  s!"  {violation.line}:{violation.column}  {red}error{plain}  " ++
    s!"[{violation.rule}] {violation.message}\n"

/-- The violations of a file, and an empty line. -/
def fileText (file : String) (violations : List Violation) : String :=
  file ++ "\n" ++ String.join (violations.map violationText) ++ "\n"

/-- The number of violations of each rule, and an empty line. -/
def countsText (report : Report) : String :=
  if report.ruleCounts.isEmpty then ""
  else
    String.join (report.ruleCounts.toList.map fun entry => s!"{entry.1}: {entry.2}\n") ++ "\n"

/-- A report for readers. -/
def renderText (report : Report) : String :=
  String.join (report.byFile.map fun group => fileText group.1 group.2) ++ countsText report ++
    (if report.hasErrors then red else green) ++ total report ++ plain

/-- A report with one violation a line. -/
def renderCompact (report : Report) : String :=
  String.join (report.violations.map fun violation => violation.compact ++ "\n") ++ total report

/-- A report in some form. -/
def render (format : Format) (report : Report) : String :=
  match format with
  | text => renderText report
  | json => report.toJson.pretty
  | compact => renderCompact report

end Format

end LayerLint.Command
