import LayerLint.Proofs.Report
import LayerLint.Proofs.Text.ByteOrder
import Mathlib.Algebra.Ring.Nat

/-! # Views of a report

A report counts its violations for each rule, selects those of one rule, and groups them by file.
Each of these has every violation once. Grouping only joins violations next to each other; it makes
one group for each file because violations are ordered by their files first.
-/

namespace LayerLint

theorem Violation.NotBehind.file_le {first second : Violation} (h : first.NotBehind second) :
    first.file ≤ second.file := by
  rw [NotBehind, Violation.compare, Ordering.isLE_then_iff_and] at h
  exact (isLE_compareOfLessAndEq String.le_antisymm String.not_le String.le_total).mp h.1

namespace Report

variable {violations : List Violation} {groups : List (String × List Violation)}

/-! ## Groups by file -/

/-- The violations are divided into groups of different files, which are in the order of the bytes
of their names. -/
structure IsGrouping (violations : List Violation) (groups : List (String × List Violation)) :
    Prop where
  flatMap_eq : groups.flatMap Prod.snd = violations
  ne_nil : ∀ group ∈ groups, group.2 ≠ []
  file_eq : ∀ group ∈ groups, ∀ violation ∈ group.2, violation.file = group.1
  increasing : groups.Pairwise fun first second => Text.bytes first.1 < Text.bytes second.1

namespace IsGrouping

theorem nil : IsGrouping [] [] where
  flatMap_eq := rfl
  ne_nil := List.forall_mem_nil _
  file_eq := List.forall_mem_nil _
  increasing := .nil

theorem cons {file : String} {members : List Violation} (h : IsGrouping violations groups)
    (hmembers : members ≠ []) (hfile : ∀ violation ∈ members, violation.file = file)
    (hbehind : ∀ group ∈ groups, Text.bytes file < Text.bytes group.1) :
    IsGrouping (members ++ violations) ((file, members) :: groups) where
  flatMap_eq := by rw [List.flatMap_cons, h.flatMap_eq]
  ne_nil := List.forall_mem_cons.mpr ⟨hmembers, h.ne_nil⟩
  file_eq := List.forall_mem_cons.mpr ⟨hfile, h.file_eq⟩
  increasing := List.pairwise_cons.mpr ⟨hbehind, h.increasing⟩

theorem tail {first : String × List Violation} (h : IsGrouping violations (first :: groups)) :
    IsGrouping (groups.flatMap Prod.snd) groups where
  flatMap_eq := rfl
  ne_nil := (List.forall_mem_cons.mp h.ne_nil).2
  file_eq := (List.forall_mem_cons.mp h.file_eq).2
  increasing := h.increasing.of_cons

/-- A violation in front of all others comes into the first group, or else makes a new one. -/
theorem group {violation : Violation} (h : IsGrouping violations groups)
    (hfront : ∀ other ∈ violations, violation.NotBehind other) :
    IsGrouping (violation :: violations) (group violation groups) := by
  cases groups with
  | nil =>
      have hsingle : ∀ other ∈ [violation], other.file = violation.file := by simp
      exact h.cons (List.cons_ne_nil _ _) hsingle (List.forall_mem_nil _)
  | cons first rest =>
      obtain ⟨file, members⟩ := first
      have hmembers : members ≠ [] := h.ne_nil _ List.mem_cons_self
      have hfile : ∀ member ∈ members, member.file = file := h.file_eq _ List.mem_cons_self
      obtain ⟨hbehind, -⟩ := List.pairwise_cons.mp h.increasing
      have hviolations : violations = members ++ rest.flatMap Prod.snd := h.flatMap_eq.symm
      rw [Report.group]
      split
      next hsame =>
        have hjoined := h.tail.cons (List.cons_ne_nil violation members)
          (List.forall_mem_cons.mpr ⟨hsame, hfile⟩) hbehind
        rwa [List.cons_append, ← hviolations] at hjoined
      next hother =>
        -- a member of the first group shows that its file does not come before the new one
        obtain ⟨member, hmember⟩ := List.exists_mem_of_ne_nil members hmembers
        have hle : violation.file ≤ file := by
          rw [← hfile member hmember]
          exact (hfront member (hviolations ▸ List.mem_append_left _ hmember)).file_le
        have hlt : Text.bytes violation.file < Text.bytes file :=
          Text.bytes_lt_bytes_iff.mpr (Std.lt_of_le_of_ne hle hother)
        have hsingle : ∀ other ∈ [violation], other.file = violation.file := by simp
        refine h.cons (List.cons_ne_nil violation []) hsingle (List.forall_mem_cons.mpr ⟨hlt, ?_⟩)
        intro group hgroup
        exact List.lt_trans hlt (hbehind group hgroup)

/-- A group has all violations of its file. -/
theorem filter_eq (h : IsGrouping violations groups) {group : String × List Violation}
    (hgroup : group ∈ groups) : violations.filter (·.file = group.1) = group.2 := by
  induction groups generalizing violations with
  | nil => cases hgroup
  | cons first rest ih =>
      obtain ⟨hfile, hfiles⟩ := List.forall_mem_cons.mp h.file_eq
      obtain ⟨hbehind, -⟩ := List.pairwise_cons.mp h.increasing
      have hne (later : String × List Violation) (hlater : later ∈ rest) : first.1 ≠ later.1 :=
        fun heq => List.lt_irrefl _ (heq ▸ hbehind later hlater)
      rw [← h.flatMap_eq, List.flatMap_cons, List.filter_append]
      rcases List.mem_cons.mp hgroup with rfl | hgroup
      · have hrest : (rest.flatMap Prod.snd).filter (·.file = group.1) = [] := by
          rw [List.filter_eq_nil_iff]
          intro violation hviolation
          obtain ⟨later, hlater, hmember⟩ := List.mem_flatMap.mp hviolation
          rw [decide_eq_true_eq, hfiles later hlater violation hmember]
          exact (hne later hlater).symm
        rw [hrest, List.append_nil, List.filter_eq_self]
        intro violation hviolation
        exact decide_eq_true (hfile violation hviolation)
      · have hfirst : first.2.filter (·.file = group.1) = [] := by
          rw [List.filter_eq_nil_iff]
          intro violation hviolation
          rw [decide_eq_true_eq, hfile violation hviolation]
          exact hne group hgroup
        rw [hfirst, List.nil_append, ih h.tail hgroup]

/-- Each file with violations forms one group, and there are no other groups. -/
theorem mem_iff (h : IsGrouping violations groups) {file : String} {members : List Violation} :
    (file, members) ∈ groups ↔ members ≠ [] ∧ members = violations.filter (·.file = file) := by
  constructor
  · intro hgroup
    exact ⟨h.ne_nil _ hgroup, (h.filter_eq hgroup).symm⟩
  · rintro ⟨hmembers, rfl⟩
    obtain ⟨violation, hviolation⟩ := List.exists_mem_of_ne_nil _ hmembers
    obtain ⟨hviolation, hfile⟩ := List.mem_filter.mp hviolation
    rw [← h.flatMap_eq] at hviolation
    obtain ⟨group, hgroup, hmember⟩ := List.mem_flatMap.mp hviolation
    obtain rfl : group.1 = file := by
      rw [← h.file_eq group hgroup violation hmember]
      exact of_decide_eq_true hfile
    rwa [h.filter_eq hgroup]

end IsGrouping

theorem isGrouping_foldr (h : violations.Pairwise Violation.NotBehind) :
    IsGrouping violations (violations.foldr group []) := by
  induction violations with
  | nil => exact .nil
  | cons violation rest ih =>
      obtain ⟨hfront, hrest⟩ := List.pairwise_cons.mp h
      exact (ih hrest).group hfront

/-! ## Selections by rule -/

/-- Different rules, among them all that occur, select every violation once. -/
theorem flatMap_filter_rule_perm {rules : List String} (hrules : rules.Nodup)
    (h : ∀ violation ∈ violations, violation.rule ∈ rules) :
    (rules.flatMap fun rule => violations.filter (·.rule == rule)).Perm violations := by
  induction rules generalizing violations with
  | nil =>
      rw [List.eq_nil_iff_forall_not_mem.mpr fun violation hmem =>
        List.not_mem_nil (h violation hmem)]
      exact .nil
  | cons rule rest ih =>
      obtain ⟨hrule, hrest⟩ := List.nodup_cons.mp hrules
      have hcovered : ∀ violation ∈ violations.filter (!·.rule == rule), violation.rule ∈ rest := by
        intro violation hmem
        obtain ⟨hmem, hne⟩ := List.mem_filter.mp hmem
        exact (List.mem_cons.mp (h violation hmem)).resolve_left (by simpa using hne)
      have hothers := ih hrest hcovered
      have hselect : (rest.flatMap fun other =>
          (violations.filter (!·.rule == rule)).filter (·.rule == other)) =
            rest.flatMap fun other => violations.filter (·.rule == other) := by
        apply List.flatMap_congr
        intro other hother
        have hne : other ≠ rule := fun heq => hrule (heq ▸ hother)
        rw [List.filter_filter]
        apply List.filter_congr
        intro violation _
        by_cases heq : violation.rule = other <;> simp [heq, hne]
      rw [hselect] at hothers
      exact (hothers.append_left _).trans (List.filter_append_perm _ _)

/-- The counts have the rules that occur among the violations, each with the number of its
occurrences. -/
def CountsRules (report : Report) : Prop :=
  ∀ rule, report.ruleCounts.get? rule =
    if rule ∈ report.violations.map Violation.rule then
      some ((report.violations.map Violation.rule).count rule)
    else none

theorem countsRules_ofViolations (found : List Violation) (scannedFiles : Nat)
    (configPath : String) (configLoaded : Bool) :
    (ofViolations found scannedFiles configPath configLoaded).CountsRules := by
  intro rule
  have hrules : ((ofViolations found scannedFiles configPath configLoaded).violations.map
      Violation.rule).Perm (found.map Violation.rule) := perm_violations.map _
  simp only [get?_ruleCounts, hrules.mem_iff, hrules.count_eq]
  rw [List.count, List.countP_map]
  rfl

namespace CountsRules

variable {report : Report}

theorem length_byRule (h : report.CountsRules) (rule : String) :
    (report.byRule rule).length = (report.ruleCounts.get? rule).getD 0 := by
  have hlength : (report.byRule rule).length =
      (report.violations.map Violation.rule).count rule := by
    rw [byRule, ← List.countP_eq_length_filter, List.count, List.countP_map]
    rfl
  rw [hlength, h rule]
  split
  next => rfl
  next habsent => rw [List.count_eq_zero.mpr habsent, Option.getD_none]

theorem byRule_perm (h : report.CountsRules) :
    ((report.ruleCounts.toList.map Prod.fst).flatMap report.byRule).Perm report.violations := by
  apply flatMap_filter_rule_perm (Dict.nodup_keys _)
  intro violation hmem
  have hcount := h violation.rule
  rw [if_pos (List.mem_map_of_mem hmem)] at hcount
  exact List.mem_map_of_mem (Dict.get?_eq_some_iff.mp hcount)

theorem sum_eq_length (h : report.CountsRules) :
    (report.ruleCounts.toList.map Prod.snd).sum = report.violations.length := by
  have hlengths : report.ruleCounts.toList.map Prod.snd =
      (report.ruleCounts.toList.map Prod.fst).map fun rule => (report.byRule rule).length := by
    rw [List.map_map]
    apply List.map_congr_left
    rintro ⟨rule, count⟩ hentry
    rw [Function.comp_apply, h.length_byRule, Dict.get?_eq_some_iff.mpr hentry, Option.getD_some]
  rw [hlengths, ← List.length_flatMap, h.byRule_perm.length_eq]

end CountsRules

/-! ## All views -/

/-- A report has all that was found, and each of its views accounts for every violation once. -/
structure AccountsFor (report : Report) (found : List Violation) : Prop where
  perm : report.violations.Perm found
  countsRules : report.CountsRules
  sum_eq_errorCount : (report.ruleCounts.toList.map Prod.snd).sum = report.errorCount
  errorCount_eq_length : report.errorCount = report.violations.length
  length_byRule : ∀ rule, (report.byRule rule).length = (report.ruleCounts.get? rule).getD 0
  byRule_perm :
    ((report.ruleCounts.toList.map Prod.fst).flatMap report.byRule).Perm report.violations
  isGrouping : IsGrouping report.violations report.byFile
  /-- Each file with violations forms one group, and there are no other groups. -/
  mem_byFile_iff : ∀ file members, (file, members) ∈ report.byFile ↔
    members ≠ [] ∧ members = report.violations.filter (·.file = file)

theorem accountsFor_ofViolations (found : List Violation) (scannedFiles : Nat)
    (configPath : String) (configLoaded : Bool) :
    (ofViolations found scannedFiles configPath configLoaded).AccountsFor found := by
  have hcounts := countsRules_ofViolations found scannedFiles configPath configLoaded
  have hgroups : IsGrouping (ofViolations found scannedFiles configPath configLoaded).violations
      (ofViolations found scannedFiles configPath configLoaded).byFile :=
    isGrouping_foldr pairwise_violations
  exact {
    perm := perm_violations
    countsRules := hcounts
    sum_eq_errorCount := hcounts.sum_eq_length
    errorCount_eq_length := rfl
    length_byRule := hcounts.length_byRule
    byRule_perm := hcounts.byRule_perm
    isGrouping := hgroups
    mem_byFile_iff := fun _ _ => hgroups.mem_iff }

end Report

end LayerLint
