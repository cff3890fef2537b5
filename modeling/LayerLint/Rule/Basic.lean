import LayerLint.Context.Basic

/-! # Rules

A rule looks at one file at a time or at the whole tree, and reports violations. It runs unless the
settings switch it off, by its own flag or by its identifier.
-/

namespace LayerLint

/-- What a rule looks at. -/
inductive Rule.Check where
  /-- Each file below a layer by itself. -/
  | file (check : Context → SourceFile → List Violation)
  /-- The whole tree at once. -/
  | tree (check : Context → List Violation)

/-- A rule. -/
structure Rule where
  /-- The identifier, which settings and reports name the rule by. -/
  id : String
  name : String
  description : String
  /-- Whether the rule's own setting leaves it on. -/
  isOn : Config → Bool
  check : Rule.Check

namespace Rule

/-- Whether the rule looks at single files. -/
def isFileRule (rule : Rule) : Bool :=
  match rule.check with
  | .file _ => true
  | .tree _ => false

/-- The kind of the rule as it is shown. -/
def kindName (rule : Rule) : String :=
  if rule.isFileRule then "file" else "repo"

/-- Whether the rule runs under some settings. -/
def isEnabled (rule : Rule) (config : Config) : Bool :=
  rule.isOn config && config.isRuleEnabled rule.id

/-- The violations that the rule reports. -/
def run (rule : Rule) (context : Context) : List Violation :=
  if rule.isEnabled context.config then
    match rule.check with
    | .file check => context.candidates.flatMap fun path => check context (context.file path)
    | .tree check => check context
  else []

end Rule

end LayerLint
