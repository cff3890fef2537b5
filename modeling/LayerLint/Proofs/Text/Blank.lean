import LayerLint.Text.Blank

/-! # The blank characters one by one

There are few blank characters. A class of characters contains all of them, or none, as soon as it
does so for each in their list.
-/

namespace LayerLint.Text

/-- All blank characters. -/
def blankChars : List Char :=
  blankRanges.flatMap fun range =>
    (List.range' range.1 (range.2 + 1 - range.1)).map Char.ofNat

theorem mem_blankChars_of_isBlank {c : Char} (h : isBlank c = true) : c ∈ blankChars := by
  obtain ⟨range, hrange, hfirst, hlast⟩ := CodeRanges.exists_of_covers h
  refine List.mem_flatMap.mpr ⟨range, hrange, List.mem_map.mpr ⟨c.toNat, ?_, Char.ofNat_toNat c⟩⟩
  rw [List.mem_range'_1]
  omega

theorem forall_isBlank {ok : Char → Bool} (h : blankChars.all ok = true) :
    ∀ c, isBlank c = true → ok c = true :=
  fun c hc => List.all_eq_true.mp h c (mem_blankChars_of_isBlank hc)

theorem forall_isBlank_not {ok : Char → Bool} (h : blankChars.all (!ok ·) = true) :
    ∀ c, isBlank c = true → ok c = false :=
  fun c hc => (Bool.not_eq_true' _).mp (forall_isBlank h c hc)

theorem trimChars_isInfix (text : List Char) : trimChars text <:+: text := by
  have hprefix : trimChars text <+: text.dropWhile isBlank := by
    rw [← List.reverse_suffix, trimChars, List.reverse_reverse]
    exact List.dropWhile_suffix isBlank
  exact hprefix.isInfix.trans (List.dropWhile_suffix isBlank).isInfix

end LayerLint.Text
