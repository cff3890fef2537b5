import LayerLint.RuleBook
import Mathlib.Data.List.Nodup

/-! # What rules sign

A rule puts its own identifier on all that it finds, and no two rules share one. So the identifiers
in a report tell which rule found what.
-/

namespace LayerLint.Rule

/-- All of the violations are those of one rule. -/
def Signed (id : String) (found : List Violation) : Prop :=
  ∀ violation ∈ found, violation.rule = id

variable {id : String}

theorem signed_nil : Signed id [] := by
  intro violation h
  cases h

theorem signed_singleton {violation : Violation} (h : violation.rule = id) :
    Signed id [violation] := by
  intro other hother
  rwa [List.mem_singleton.mp hother]

theorem Signed.append {first second : List Violation} (hfirst : Signed id first)
    (hsecond : Signed id second) : Signed id (first ++ second) := by
  intro violation h
  exact (List.mem_append.mp h).elim (hfirst violation) (hsecond violation)

theorem signed_map {α : Type} {items : List α} {report : α → Violation}
    (h : ∀ item, (report item).rule = id) : Signed id (items.map report) := by
  intro violation hviolation
  obtain ⟨item, -, rfl⟩ := List.mem_map.mp hviolation
  exact h item

theorem signed_filterMap {α : Type} {items : List α} {report? : α → Option Violation}
    (h : ∀ item violation, report? item = some violation → violation.rule = id) :
    Signed id (items.filterMap report?) := by
  intro violation hviolation
  obtain ⟨item, -, hreport⟩ := List.mem_filterMap.mp hviolation
  exact h item violation hreport

theorem signed_flatMap {α : Type} {items : List α} {reports : α → List Violation}
    (h : ∀ item, Signed id (reports item)) : Signed id (items.flatMap reports) := by
  intro violation hviolation
  obtain ⟨item, -, hreport⟩ := List.mem_flatMap.mp hviolation
  exact h item violation hreport

/-- What a rule finds in a context, whether it is switched on or not. -/
def findings (rule : Rule) (context : Context) : List Violation :=
  match rule.check with
  | .file check => context.candidates.flatMap fun path => check context (context.file path)
  | .tree check => check context

theorem run_eq (rule : Rule) (context : Context) :
    rule.run context = if rule.isEnabled context.config then rule.findings context else [] := rfl

/-- The rule puts its identifier on all that it finds. -/
def Signs (rule : Rule) : Prop :=
  ∀ context, Signed rule.id (rule.findings context)

/-- Of what a rule reports, its identifier decides what is kept. -/
theorem Signs.filter_run {rule : Rule} (h : rule.Signs) (context : Context) (keep : String → Bool) :
    (rule.run context).filter (fun violation => keep violation.rule) =
      if keep rule.id then rule.run context else [] := by
  have hsigned : Signed rule.id (rule.run context) := by
    rw [run_eq]
    split
    · exact h context
    · exact signed_nil
  split
  next hkeep =>
    rw [List.filter_eq_self]
    intro violation hviolation
    rwa [hsigned violation hviolation]
  next hkeep =>
    rw [List.filter_eq_nil_iff]
    intro violation hviolation
    rwa [hsigned violation hviolation]

theorem signs_of_file {rule : Rule} {check : Context → SourceFile → List Violation}
    (hcheck : rule.check = .file check) (h : ∀ context file, Signed rule.id (check context file)) :
    rule.Signs := by
  intro context
  rw [findings, hcheck]
  exact signed_flatMap fun path => h context (context.file path)

theorem signs_of_tree {rule : Rule} {check : Context → List Violation}
    (hcheck : rule.check = .tree check) (h : ∀ context, Signed rule.id (check context)) :
    rule.Signs := by
  intro context
  rw [findings, hcheck]
  exact h context

theorem signs_fileSuffix : fileSuffix.Signs := by
  apply signs_of_file rfl
  intro context file
  rw [FileSuffix.check]
  cases FileSuffix.complaint? context.config file.name with
  | none => exact signed_nil
  | some complaint => exact signed_singleton rfl

theorem signs_declarationPlacement : declarationPlacement.Signs := by
  apply signs_of_file rfl
  intro context file
  rw [DeclarationPlacement.check]
  split
  · exact signed_nil
  · exact signed_map fun _ => rfl

theorem signs_layerDirection : layerDirection.Signs := by
  apply signs_of_file rfl
  intro context file
  rw [LayerDirection.check]
  split
  · exact signed_nil
  · exact signed_map fun _ => rfl

theorem signs_barrelFile : barrelFile.Signs := by
  apply signs_of_file rfl
  intro context file
  rw [BarrelFile.check]
  split
  · exact signed_singleton rfl
  · exact signed_nil

theorem signs_routerHook : routerHook.Signs := by
  apply signs_of_file rfl
  intro context file
  rw [RouterHook.check]
  split
  · exact signed_nil
  · exact signed_map fun _ => rfl

theorem signs_nestedLayer : nestedLayer.Signs := by
  apply signs_of_tree rfl
  intro context
  apply signed_flatMap
  intro directory
  rw [NestedLayer.checkDirectory]
  split
  · exact signed_map fun _ => rfl
  · exact signed_nil

theorem signs_sharedModule : sharedModule.Signs := by
  apply signs_of_tree rfl
  intro context
  apply signed_filterMap
  intro entry violation hreport
  obtain ⟨file, -, hreport⟩ := Option.bind_eq_some_iff.mp hreport
  split at hreport
  next => cases hreport
  next =>
    cases hreport
    rfl

theorem signs_kebabCase : kebabCase.Signs := by
  apply signs_of_tree rfl
  intro context
  apply Signed.append
  · apply signed_filterMap
    intro directory violation hreport
    obtain ⟨name, -, hreport⟩ := Option.bind_eq_some_iff.mp hreport
    split at hreport
    next => cases hreport
    next =>
      cases hreport
      rfl
  · apply signed_flatMap
    intro path
    rw [KebabCase.checkFile]
    split
    · exact signed_map fun _ => rfl
    · exact signed_nil

theorem signs_layerName : layerName.Signs := by
  apply signs_of_tree rfl
  intro context
  apply signed_flatMap
  intro directory
  exact signed_map fun _ => rfl

theorem signs_moduleForm : moduleForm.Signs := by
  apply signs_of_tree rfl
  intro context
  apply signed_flatMap
  intro directory
  rw [ModuleForm.checkDirectory]
  split
  · exact signed_map fun _ => rfl
  · exact signed_nil

/-- Every rule of the rule book signs what it finds. -/
theorem signs_of_mem_ruleBook {rule : Rule} (h : rule ∈ ruleBook) : rule.Signs := by
  simp only [ruleBook, List.mem_cons, List.not_mem_nil, or_false] at h
  rcases h with rfl | rfl | rfl | rfl | rfl | rfl | rfl | rfl | rfl | rfl
  · exact signs_fileSuffix
  · exact signs_declarationPlacement
  · exact signs_layerDirection
  · exact signs_barrelFile
  · exact signs_routerHook
  · exact signs_nestedLayer
  · exact signs_sharedModule
  · exact signs_kebabCase
  · exact signs_layerName
  · exact signs_moduleForm

/-- No two rules of the rule book have one identifier. -/
theorem nodup_ids : (ruleBook.map Rule.id).Nodup := by
  decide

/-- The identifiers of chosen rules choose no other rule of the rule book. -/
theorem contains_ids {rule : Rule} (h : rule ∈ ruleBook) (chosen : Rule → Bool) :
    ((ruleBook.filter chosen).map Rule.id).contains rule.id = chosen rule := by
  rw [Bool.eq_iff_iff, List.contains_iff_mem, List.mem_map]
  constructor
  · rintro ⟨other, hother, hid⟩
    obtain ⟨hmem, hchosen⟩ := List.mem_filter.mp hother
    rwa [← List.inj_on_of_nodup_map nodup_ids hmem h hid]
  · intro hchosen
    exact ⟨rule, List.mem_filter.mpr ⟨h, hchosen⟩, rfl⟩

end LayerLint.Rule
