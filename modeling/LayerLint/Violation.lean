/-! # Violations

A violation is what a rule reports at a place of a file. Violations are listed by file, line,
column, rule and message, so that a listing never depends on the order in which rules ran.
-/

namespace LayerLint

/-- What a rule reports. -/
structure Violation where
  /-- The identifier of the rule. -/
  rule : String
  message : String
  /-- The file or directory, as seen from the root. -/
  file : String
  line : Nat
  column : Nat
  deriving Repr, DecidableEq

namespace Violation

/-- A violation at the beginning of a file, or of a directory as a whole. -/
def atStart (rule file message : String) : Violation :=
  ⟨rule, message, file, 1, 1⟩

/-- The order of violations in listings. -/
def compare (first second : Violation) : Ordering :=
  (Ord.compare first.file second.file).then <|
    (Ord.compare first.line second.line).then <|
      (Ord.compare first.column second.column).then <|
        (Ord.compare first.rule second.rule).then <|
          Ord.compare first.message second.message

/-- The violation on one line. -/
def compact (violation : Violation) : String :=
  s!"{violation.file}:{violation.line}:{violation.column} [{violation.rule}] {violation.message}"

end Violation

end LayerLint
