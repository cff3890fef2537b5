import LayerLint.Proofs.Source.Comment

/-! # Code that is shown as it is

A piece of code without delimiters of literals, and without a slash that opens a comment, is the
same in the masked text. What a text in front of it ends in can be told without it, unless that text
ends with a slash or a star.
-/

namespace LayerLint.Source

variable {following : Option Char} {region : Region} {text : List Char} {c : Char}

/-- A piece of code that is shown as it is, and behind which the code goes on. -/
def IsPlain (following : Option Char) (text : List Char) : Prop :=
  maskUntil following .code text = text ∧ Region.after following .code text = .code

/-- A character of the code that opens nothing is shown, and the code goes on. -/
theorem Region.code_next_plain (hdelimiter : isDelimiter c = false)
    (hslash : c = '/' → following ≠ some '/' ∧ following ≠ some '*') :
    code.next c following = .code ∧ code.shows c following = true := by
  simp only [isDelimiter, Bool.or_eq_false_iff, beq_eq_false_iff_ne] at hdelimiter
  obtain ⟨⟨hsingle, hdouble⟩, htick⟩ := hdelimiter
  by_cases hc : c = '/'
  · obtain ⟨hline, hblock⟩ := hslash hc
    subst hc
    simp [next, hline, hblock, backTick]
  · simp [next, hc, hsingle, hdouble, htick]

namespace IsPlain

theorem append {first second : List Char} (hfirst : IsPlain (second.head?.or following) first)
    (hsecond : IsPlain following second) : IsPlain following (first ++ second) := by
  rw [IsPlain, maskUntil_append, Region.after_append, hfirst.1, hfirst.2, hsecond.1, hsecond.2]
  exact ⟨rfl, rfl⟩

/-- A piece of code in which no character opens anything is shown as it is. -/
theorem of_forall (h : ∀ first c second, text = first ++ c :: second →
    isDelimiter c = false ∧ (c = '/' → second.head?.or following ≠ some '/' ∧
      second.head?.or following ≠ some '*')) : IsPlain following text := by
  induction text with
  | nil => exact ⟨rfl, rfl⟩
  | cons c rest ih =>
      obtain ⟨hdelimiter, hslash⟩ := h [] c rest rfl
      obtain ⟨hnext, hshown⟩ := Region.code_next_plain hdelimiter hslash
      obtain ⟨hmask, hafter⟩ :=
        ih fun first d second heq => h (c :: first) d second (by rw [heq]; rfl)
      rw [IsPlain, maskUntil, Region.after, hnext, hshown, hmask, hafter]
      exact ⟨rfl, rfl⟩

theorem of_all (h : text.all (fun c => !isDelimiter c && c != '/') = true)
    (following : Option Char) : IsPlain following text := by
  apply of_forall
  intro first c second heq
  have hc := List.all_eq_true.mp h c (heq ▸ List.mem_append_right _ List.mem_cons_self)
  simp only [Bool.and_eq_true, Bool.not_eq_true', bne_iff_ne] at hc
  exact ⟨hc.1, fun hslash => (hc.2 hslash).elim⟩

theorem cons (hc : isDelimiter c = false ∧ c ≠ '/') (h : IsPlain following text) :
    IsPlain following (c :: text) := by
  obtain ⟨hnext, hshown⟩ := Region.code_next_plain hc.1 fun hslash => (hc.2 hslash).elim
  rw [IsPlain, maskUntil, Region.after, hnext, hshown, h.1, h.2]
  exact ⟨rfl, rfl⟩

/-- A piece of code without literals and comments is shown as it is if no slash or star follows. -/
theorem of_no_comment (hliteral : ∀ c ∈ text, isDelimiter c = false)
    (hline : ¬"//".toList <:+: text) (hblock : ¬"/*".toList <:+: text)
    (hfollowing : following ≠ some '/' ∧ following ≠ some '*') : IsPlain following text := by
  apply of_forall
  intro first c second heq
  refine ⟨hliteral c (heq ▸ List.mem_append_right _ List.mem_cons_self), ?_⟩
  rintro rfl
  cases second with
  | nil => exact hfollowing
  | cons d second =>
      rw [List.head?_cons, Option.some_or]
      constructor
      · rintro ⟨⟩
        exact hline ⟨first, second, by simp [heq]⟩
      · rintro ⟨⟩
        exact hblock ⟨first, second, by simp [heq]⟩

end IsPlain

/-! ## In front of the code -/

/-- Only a slash and a star are read in view of what follows them. -/
theorem Region.next_eq_next_none (hc : c ≠ '/' ∧ c ≠ '*') :
    region.next c following = region.next c none ∧
      region.shows c following = region.shows c none := by
  cases region with
  | code => simp [next, hc.1]
  | blockComment => simp [next, hc.2]
  | lineComment | blockOpen | blockClose | quoted quote | quotedEscape quote | template |
      templateEscape => exact ⟨rfl, rfl⟩

theorem maskUntil_eq_maskChars (hlast : ∀ c, text.getLast? = some c → c ≠ '/' ∧ c ≠ '*')
    (following : Option Char) :
    maskUntil following .code text = maskChars text ∧
      Region.after following .code text = Region.after none .code text := by
  rw [maskChars, ← maskUntil_none]
  rcases List.eq_nil_or_concat' text with rfl | ⟨first, c, rfl⟩
  · exact ⟨rfl, rfl⟩
  · obtain ⟨hnext, hshows⟩ := Region.next_eq_next_none (hlast c List.getLast?_concat)
    rw [maskUntil_concat, maskUntil_concat, Region.after_concat, Region.after_concat, hnext, hshows]
    exact ⟨rfl, rfl⟩

/-- The slash of the two characters that close a block comment is a slash. -/
theorem Region.eq_slash_of_after_eq_blockClose
    (h : after (some c) .code text = .blockClose) : c = '/' := by
  rcases List.eq_nil_or_concat' text with rfl | ⟨first, d, rfl⟩
  · cases h
  · rw [after_concat] at h
    generalize after (some d) code first = region at h
    cases region with
    | blockComment =>
        simp only [next] at h
        split at h
        next hclose => exact Option.some.inj hclose.2
        next => cases h
    | code | lineComment | quoted quote | template =>
        simp only [next] at h
        repeat' split at h
        all_goals cases h
    | blockOpen | blockClose | quotedEscape quote | templateEscape => cases h

/-- An ordinary character behind which the code goes on stands in the code itself. -/
theorem Region.eq_code_of_next (hdelimiter : isDelimiter c = false) (hc : c ≠ '/' ∧ c ≠ '\n')
    (h : (after (some c) .code text).next c following = .code) :
    after (some c) .code text = .code := by
  have hquote : (after (some c) .code text).hasQuote = true := hasQuote_after rfl
  simp only [isDelimiter, Bool.or_eq_false_iff, beq_eq_false_iff_ne] at hdelimiter
  cases hregion : after (some c) .code text with
  | code => rfl
  | lineComment => simp [hregion, next, hc.2] at h
  | blockOpen | quotedEscape quote | templateEscape => simp [hregion, next] at h
  | blockComment =>
      rw [hregion, next] at h
      split at h <;> cases h
  | blockClose => exact (hc.1 (eq_slash_of_after_eq_blockClose hregion)).elim
  | quoted quote =>
      rw [hregion] at h hquote
      simp only [hasQuote, Bool.or_eq_true, beq_iff_eq] at hquote
      rw [next] at h
      split at h
      next => cases h
      next =>
        split at h
        next hend =>
          rcases hend with rfl | hline
          · simp [hdelimiter.1] at hquote
          · exact (hc.2 hline).elim
        next => cases h
  | template =>
      rw [hregion, next] at h
      split at h
      next => cases h
      next =>
        split at h
        next htick => exact (hdelimiter.2 htick).elim
        next => cases h

end LayerLint.Source
