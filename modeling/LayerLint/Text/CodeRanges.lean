/-! # Ranges of code points

A character property is given by the closed ranges of code points that have it, in increasing
order. Looking a character up stops at the first range that begins after it, so the ASCII
characters, which are the most frequent ones, are decided by the first few ranges.
-/

namespace LayerLint.Text

/-- Closed ranges `(first, last)` of code points, in increasing order. -/
abbrev CodeRanges := List (Nat × Nat)

/-- Whether `n` lies in one of the ranges. -/
def CodeRanges.covers : CodeRanges → Nat → Bool
  | [], _ => false
  | (first, last) :: rest, n => decide (first ≤ n) && (decide (n ≤ last) || covers rest n)

/-- A covered number lies between the ends of one of the ranges. -/
theorem CodeRanges.exists_of_covers {ranges : CodeRanges} {n : Nat} (h : ranges.covers n = true) :
    ∃ range ∈ ranges, range.1 ≤ n ∧ n ≤ range.2 := by
  induction ranges with
  | nil => simp [covers] at h
  | cons range rest ih =>
      simp only [covers, Bool.and_eq_true, Bool.or_eq_true, decide_eq_true_eq] at h
      obtain ⟨hfirst, hlast | hrest⟩ := h
      · exact ⟨range, List.mem_cons_self, hfirst, hlast⟩
      · obtain ⟨found, hmem, hbounds⟩ := ih hrest
        exact ⟨found, List.mem_cons_of_mem _ hmem, hbounds⟩

end LayerLint.Text
