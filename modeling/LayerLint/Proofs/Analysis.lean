import LayerLint.Proofs.Context.Outside
import LayerLint.Proofs.Report

/-! # Runs in any order

Files and directories are listed in one order however they are met, and violations are listed in one
order however they are found. So a run may meet its files and directories, take its rules and visit
the files of each rule in any order: the report is the same.
-/

namespace LayerLint

/-! ## Texts in any order -/

/-- The rule reads texts by the paths of files, and not in the order in which they are kept. -/
def Rule.ReadsByPath (rule : Rule) : Prop :=
  ∀ (context : Context) (texts : List (Path.Key × String)),
    (∀ path, { context with texts }.text path = context.text path) →
      rule.run { context with texts } = rule.run context

theorem Rule.IsSteady.readsByPath {rule : Rule} (h : rule.IsSteady) : rule.ReadsByPath := by
  intro context texts htexts
  apply h
  exact ⟨rfl, rfl, rfl, rfl, rfl, rfl, fun path _ => htexts path, fun _ _ => rfl⟩

/-! ## What is found in any order -/

/-- What a rule may find in a context: a rule for single files visits them in any order. -/
inductive Rule.Finds (rule : Rule) (context : Context) : List Violation → Prop where
  | off (hoff : rule.isEnabled context.config = false) : rule.Finds context []
  | file {check : Context → SourceFile → List Violation} {order : List Path}
      (hon : rule.isEnabled context.config = true) (hcheck : rule.check = .file check)
      (horder : order.Perm context.candidates) :
      rule.Finds context (order.flatMap fun path => check context (context.file path))
  | tree {check : Context → List Violation} (hon : rule.isEnabled context.config = true)
      (hcheck : rule.check = .tree check) : rule.Finds context (check context)

/-- What rules may find one after another. -/
inductive Context.Gathers (context : Context) : List Rule → List Violation → Prop where
  | nil : context.Gathers [] []
  | cons {rule : Rule} {rules : List Rule} {first rest : List Violation}
      (hfirst : rule.Finds context first) (hrest : context.Gathers rules rest) :
      context.Gathers (rule :: rules) (first ++ rest)

variable {rule : Rule} {context : Context} {rules rules' : List Rule} {found : List Violation}

/-- A rule finds what it reports when it visits files in listing order. -/
theorem Rule.Finds.perm_run (h : rule.Finds context found) : found.Perm (rule.run context) := by
  rw [run]
  cases h with
  | off hoff =>
      rw [hoff]
      exact .nil
  | file hon hcheck horder =>
      rw [if_pos hon, hcheck]
      exact horder.flatMap_right _
  | tree hon hcheck => rw [if_pos hon, hcheck]

theorem Context.Gathers.perm_violations (h : context.Gathers rules found) :
    found.Perm (context.violations rules) := by
  induction h with
  | nil => exact .nil
  | cons hfirst _ ih =>
      rw [violations, List.flatMap_cons]
      exact hfirst.perm_run.append ih

/-! ## The report -/

namespace Context

variable {texts texts' : List (Path.Key × String)}
variable {files files' directories directories' : List Path}

/-- A run meets its files and directories in any order, for it lists them in one order. -/
theorem walked_eq_of_perm (hfiles : ∀ file ∈ files, file.normalize = file)
    (hdirectories : ∀ directory ∈ directories, directory.normalize = directory)
    (hfilesPerm : files.Perm files') (hdirectoriesPerm : directories.Perm directories') :
    context.walked texts files directories = context.walked texts files' directories' := by
  simp only [walked, withEntries, Path.sort_eq_of_perm hfiles hfilesPerm,
    Path.sort_eq_of_perm hdirectories hdirectoriesPerm]

theorem run_walked_eq (hreads : rule.ReadsByPath) (hperm : texts.Perm texts')
    (hkeys : (texts.map Prod.fst).Nodup) :
    rule.run (context.walked texts' files directories) =
      rule.run (context.walked texts files directories) := by
  apply hreads (context.walked texts files directories) texts'
  intro path
  exact congrArg (·.getD "") (Dict.lookup_eq_of_perm hperm hkeys path.key).symm

/-- A run may meet its files, directories and texts in any order, take its rules in any order and
visit the files of each rule in any order: the report is the same. It is, since violations are in a
total order that tells any two different ones apart, and a report lists what was found in it. -/
theorem report_of_any_order (context : Context) {files directories : List Path}
    {texts : List (Path.Key × String)} (hfiles : ∀ file ∈ files, file.normalize = file)
    (hdirectories : ∀ directory ∈ directories, directory.normalize = directory)
    (hkeys : (texts.map Prod.fst).Nodup) (rules : List Rule) (configPath : String)
    (configLoaded : Bool) :
    (∀ files' directories' texts' rules' found, files.Perm files' → directories.Perm directories' →
      (texts' = texts ∨ texts.Perm texts' ∧ ∀ rule ∈ rules, rule.ReadsByPath) →
      rules.Perm rules' → (context.walked texts' files' directories').Gathers rules' found →
      Report.ofViolations found (context.walked texts' files' directories').candidates.length
          configPath configLoaded =
        (context.walked texts files directories).report rules configPath configLoaded) ∧
    (∀ rule ∈ ruleBook, rule.ReadsByPath) ∧
    Std.TransCmp Violation.compare ∧
    (∀ first second : Violation, first.compare second = .eq ↔ first = second) ∧
    ∀ found scannedFiles,
      (Report.ofViolations found scannedFiles configPath configLoaded).violations.Perm found ∧
      (Report.ofViolations found scannedFiles configPath configLoaded).violations.Pairwise
        Violation.NotBehind := by
  refine ⟨?_, fun rule hrule => (Rule.isSteady_of_mem_ruleBook hrule).readsByPath, inferInstance,
    fun _ _ => Std.LawfulEqCmp.compare_eq_iff_eq,
    fun _ _ => ⟨Report.perm_violations, Report.pairwise_violations⟩⟩
  intro files' directories' texts' rules' found hfilesPerm hdirectoriesPerm htexts hrules hfound
  rw [← walked_eq_of_perm hfiles hdirectories hfilesPerm hdirectoriesPerm] at hfound ⊢
  have hviolations : (context.walked texts' files directories).violations rules =
      (context.walked texts files directories).violations rules := by
    rcases htexts with rfl | ⟨hperm, hreads⟩
    · rfl
    · exact List.flatMap_congr fun rule hrule => run_walked_eq (hreads rule hrule) hperm hkeys
  have hperm : found.Perm ((context.walked texts files directories).violations rules) := by
    rw [← hviolations]
    exact hfound.perm_violations.trans (hrules.symm.flatMap_right _)
  exact Report.ofViolations_eq_of_perm hperm _ configPath configLoaded

/-- Two index files, met, read and visited the other way round, by two rules that also change
places. -/
theorem report_of_any_order_of_index_files :
    let context := ofConfig ⟨"/shop"⟩ .standard
    let first : Path := ⟨"/shop/_states/cart/index.js"⟩
    let second : Path := ⟨"/shop/_utils/index.ts"⟩
    let texts := [(first.key, "exports.a = 1"), (second.key, "export * from './a'")]
    let barrel (file : String) := Violation.atStart "FLA004" file Rule.BarrelFile.message
    let suffix := Rule.FileSuffix.check context (context.file first)
    suffix.length = 1 ∧
      Report.ofViolations ([barrel "_utils/index.ts", barrel "_states/cart/index.js"] ++ suffix) 2
          "" false =
        (context.walked texts [first, second] [⟨"/shop"⟩]).report [.fileSuffix, .barrelFile]
          "" false := by
  intro context first second texts barrel suffix
  let met := context.walked texts.reverse [second, first] [⟨"/shop"⟩]
  have hcandidates : [second, first].Perm met.candidates := by
    refine .trans ?_ (candidates_walked_perm ..).symm
    decide +kernel
  have hbarrel : Rule.barrelFile.Finds met
      [barrel "_utils/index.ts", barrel "_states/cart/index.js"] := by
    have heq : [barrel "_utils/index.ts", barrel "_states/cart/index.js"] =
        [second, first].flatMap fun path => Rule.BarrelFile.check met (met.file path) := by
      decide +kernel
    rw [heq]
    exact .file rfl rfl hcandidates
  have hsuffix : Rule.fileSuffix.Finds met suffix := by
    have heq : suffix =
        [second, first].flatMap fun path => Rule.FileSuffix.check met (met.file path) := by
      decide +kernel
    rw [heq]
    exact .file rfl rfl hcandidates
  have hfiles : ∀ file ∈ [first, second], file.normalize = file := by decide +kernel
  have hdirectories : ∀ directory ∈ [(⟨"/shop"⟩ : Path)], directory.normalize = directory := by
    decide +kernel
  have hkeys : (texts.map Prod.fst).Nodup := by decide +kernel
  have hreads : ∀ rule ∈ [Rule.fileSuffix, .barrelFile], rule.ReadsByPath := by
    intro rule hrule
    apply (Rule.isSteady_of_mem_ruleBook _).readsByPath
    simp only [List.mem_cons, List.not_mem_nil, or_false] at hrule
    rcases hrule with rfl | rfl <;> simp [ruleBook]
  have hreport := (report_of_any_order context hfiles hdirectories hkeys
    [.fileSuffix, .barrelFile] "" false).1 _ _ _ _ _ (.swap ..) (.refl _)
    (.inr ⟨texts.reverse_perm.symm, hreads⟩) (.swap ..)
    (.cons hbarrel (.cons hsuffix .nil))
  rw [← hcandidates.length_eq, List.append_nil] at hreport
  exact ⟨by decide +kernel, hreport⟩

end Context

end LayerLint
