import LayerLint.Proofs.Dict
import LayerLint.Report

/-! # Reports of violations in any order

Violations are in a total order that tells any two different ones apart, so there is one way to list
them. The counts of a report say how many violations each rule has. A report is therefore determined
by what was found, whatever the order in which it was found.
-/

namespace LayerLint

namespace Violation

theorem compare_eq_compareLex : Violation.compare =
    compareLex (compareOn file) (compareLex (compareOn line) (compareLex (compareOn column)
      (compareLex (compareOn rule) (compareOn message)))) := rfl

instance : Std.TransCmp Violation.compare := by
  rw [compare_eq_compareLex]
  infer_instance

instance : Std.LawfulEqCmp Violation.compare where
  compare_self := Std.ReflCmp.compare_self
  eq_of_compare {first second} h := by
    simp only [Violation.compare, Ordering.then_eq_eq, Std.LawfulEqCmp.compare_eq_iff_eq] at h
    obtain ⟨hfile, hline, hcolumn, hrule, hmessage⟩ := h
    cases first
    cases second
    simp_all

/-- The order in which violations are listed. -/
def NotBehind (first second : Violation) : Prop :=
  (first.compare second).isLE = true

theorem eq_of_notBehind {first second : Violation} (h : first.NotBehind second)
    (h' : second.NotBehind first) : first = second := by
  have heq : first.compare second = .eq := Std.OrientedCmp.isLE_antisymm h h'
  exact Std.LawfulEqCmp.eq_of_compare heq

end Violation

namespace Report

variable {found others : List Violation} {scannedFiles : Nat} {configPath rule : String}
variable {configLoaded : Bool}

theorem perm_violations : (ofViolations found scannedFiles configPath configLoaded).violations.Perm
    found :=
  List.mergeSort_perm ..

theorem pairwise_violations :
    (ofViolations found scannedFiles configPath configLoaded).violations.Pairwise
      Violation.NotBehind := by
  apply List.pairwise_mergeSort
  · intro first second third hfirst hsecond
    exact Std.TransCmp.isLE_trans hfirst hsecond
  · intro first second
    have hswap : first.compare second = (second.compare first).swap := Std.OrientedCmp.eq_swap
    rw [hswap]
    cases second.compare first <;> rfl

/-- A rule's count is the number of its violations; a rule without any has none. -/
theorem get?_ruleCounts_eq :
    (ofViolations found scannedFiles configPath configLoaded).ruleCounts.get? rule =
      if found.filter (·.rule = rule) = [] then none
      else some (found.filter (·.rule = rule)).length := by
  have hrun := Dict.get?_foldl_modify Violation.rule (fun _ => 0) (fun _ count => count + 1) rule
    (motive := fun seen count => count = if seen = [] then none else some seen.length)
    (by
      rintro seen violation count - rfl
      by_cases hseen : seen = [] <;> simp [hseen])
    found [] .empty rfl
  rw [ofViolations, hrun, List.nil_append]

theorem get?_ruleCounts :
    (ofViolations found scannedFiles configPath configLoaded).ruleCounts.get? rule =
      if rule ∈ found.map Violation.rule then some (found.countP (·.rule = rule)) else none := by
  have hnone : found.filter (fun violation => violation.rule = rule) = [] ↔
      rule ∉ found.map Violation.rule := by
    simp [List.filter_eq_nil_iff]
  rw [get?_ruleCounts_eq, List.countP_eq_length_filter]
  simp only [hnone, ite_not]

/-- The part of a report that is about some of the rules. -/
def restrict (report : Report) (keep : String → Bool) : Report :=
  { report with
    ruleCounts := report.ruleCounts.restrict keep
    violations := report.violations.filter fun violation => keep violation.rule }

/-- Of the violations of some of the rules, those of one rule are all that it has, or none. -/
theorem filter_rule_filter (found : List Violation) (keep : String → Bool) (rule : String) :
    (found.filter fun violation => keep violation.rule).filter (·.rule = rule) =
      if keep rule then found.filter (·.rule = rule) else [] := by
  rw [List.filter_filter]
  split
  next hkeep =>
    apply List.filter_congr
    intro violation _
    by_cases hrule : violation.rule = rule <;> simp [hrule, hkeep]
  next hkeep =>
    rw [List.filter_eq_nil_iff]
    intro violation _
    by_cases hrule : violation.rule = rule <;> simp [hrule, hkeep]

/-- A report of what some of the rules found is a part of the report of all that was found. -/
theorem ofViolations_filter (found : List Violation) (keep : String → Bool) (scannedFiles : Nat)
    (configPath : String) (configLoaded : Bool) :
    ofViolations (found.filter fun violation => keep violation.rule) scannedFiles configPath
        configLoaded =
      (ofViolations found scannedFiles configPath configLoaded).restrict keep := by
  have hviolations : (ofViolations (found.filter fun violation => keep violation.rule) scannedFiles
      configPath configLoaded).violations =
        (ofViolations found scannedFiles configPath configLoaded).violations.filter
          fun violation => keep violation.rule :=
    (perm_violations.trans (perm_violations.symm.filter _)).eq_of_pairwise
      (fun _ _ _ _ => Violation.eq_of_notBehind) pairwise_violations (pairwise_violations.filter _)
  have hcounts : (ofViolations (found.filter fun violation => keep violation.rule) scannedFiles
      configPath configLoaded).ruleCounts =
        (ofViolations found scannedFiles configPath configLoaded).ruleCounts.restrict keep := by
    apply Dict.eq_of_get?_eq
    intro rule
    simp only [Dict.get?_restrict, get?_ruleCounts_eq, filter_rule_filter]
    by_cases hkeep : keep rule = true <;> simp [hkeep]
  simp only [ofViolations, restrict] at hviolations hcounts ⊢
  rw [hviolations, hcounts]

/-- A report does not depend on the order in which violations were found. -/
theorem ofViolations_eq_of_perm (h : found.Perm others) (scannedFiles : Nat) (configPath : String)
    (configLoaded : Bool) :
    ofViolations found scannedFiles configPath configLoaded =
      ofViolations others scannedFiles configPath configLoaded := by
  have hviolations : (ofViolations found scannedFiles configPath configLoaded).violations =
      (ofViolations others scannedFiles configPath configLoaded).violations :=
    (perm_violations.trans (h.trans perm_violations.symm)).eq_of_pairwise
      (fun _ _ _ _ => Violation.eq_of_notBehind) pairwise_violations pairwise_violations
  have hcounts : (ofViolations found scannedFiles configPath configLoaded).ruleCounts =
      (ofViolations others scannedFiles configPath configLoaded).ruleCounts := by
    apply Dict.eq_of_get?_eq
    intro rule
    simp only [get?_ruleCounts, (h.map Violation.rule).mem_iff, h.countP_eq]
  simp only [ofViolations] at hviolations hcounts ⊢
  rw [hviolations, hcounts]

end Report

end LayerLint
