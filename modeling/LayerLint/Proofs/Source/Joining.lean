import LayerLint.Proofs.Source.Region
import Mathlib.Data.List.Basic

/-! # Texts that are joined in the code

Masking goes through a text once and looks no further than the next character. So where a text ends
in the code, it can be cut off and masked by itself, unless the cut goes through the two characters
that begin a comment. What is seen behind the cut does then not depend on what is in front of it.
-/

namespace LayerLint.Source

variable {following : Option Char} {region : Region} {text : List Char}

/-- A character behind which the code goes on, if nothing else follows it, is masked alike in front
of any other that does not begin a comment with it. -/
theorem Region.next_eq_code {c : Char} (h : region.next c none = .code)
    (hslash : region = .code → c = '/' → following ≠ some '/' ∧ following ≠ some '*') :
    region.next c following = .code ∧ region.shows c following = region.shows c none := by
  cases region with
  | code =>
      by_cases hc : c = '/'
      · obtain ⟨hline, hblock⟩ := hslash rfl hc
        subst hc
        simp [next, hline, hblock, backTick]
      · simp [next, hc] at h ⊢
        exact h
  | blockOpen => cases h
  -- only a star would look further, and behind it the comment goes on
  | blockComment => simp [next] at h
  | lineComment | blockClose | quoted quote | quotedEscape quote | template | templateEscape =>
      exact ⟨h, rfl⟩

/-- The last character of the text is a slash that is read as code. -/
def EndsInSlash (text : List Char) : Prop :=
  text.getLast? = some '/' ∧ Region.after (some '/') .code text.dropLast = .code

instance : Decidable (EndsInSlash text) := inferInstanceAs (Decidable (_ ∧ _))

theorem endsInSlash_concat {c : Char} :
    EndsInSlash (text ++ [c]) ↔ c = '/' ∧ Region.after (some c) .code text = .code := by
  rw [EndsInSlash, List.getLast?_concat, List.dropLast_concat, Option.some.injEq]
  exact and_congr_right fun heq => by rw [heq]

/-- A text that ends in the code is masked alike whatever follows, unless a slash at its end begins
a comment. -/
theorem after_eq_code_of_not_slash (hcode : Region.after none .code text = .code)
    (hslash : EndsInSlash text → following ≠ some '/' ∧ following ≠ some '*') :
    Region.after following .code text = .code ∧
      maskUntil following .code text = maskChars text := by
  rw [maskChars, ← maskUntil_none]
  obtain rfl | ⟨first, c, rfl⟩ := text.eq_nil_or_concat'
  · exact ⟨rfl, rfl⟩
  · rw [Region.after_concat] at hcode ⊢
    rw [maskUntil_concat, maskUntil_concat]
    obtain ⟨hnext, hshows⟩ := Region.next_eq_code hcode
      fun hregion hc => hslash (endsInSlash_concat.mpr ⟨hc, hregion⟩)
    exact ⟨hnext, by rw [hshows]⟩

/-- A slash at the end of the code is seen if nothing follows it. -/
theorem maskChars_of_endsInSlash (hslash : EndsInSlash text) :
    ∃ seen, maskChars text = seen ++ ['/'] ∧
      ∀ following, following = some '/' ∨ following = some '*' →
        maskUntil following .code text = seen ++ [' '] := by
  obtain rfl | ⟨first, c, rfl⟩ := text.eq_nil_or_concat'
  · cases hslash.1
  · obtain ⟨rfl, hregion⟩ := endsInSlash_concat.mp hslash
    refine ⟨maskUntil (some '/') .code first, ?_, ?_⟩
    · rw [maskChars, ← maskUntil_none, maskUntil_concat, hregion]
      rfl
    · rintro following (rfl | rfl) <;> rw [maskUntil_concat, hregion] <;> rfl

/-! ## The cut -/

variable {first second : String}

/-- The text ends in the code. -/
def EndsInCode (text : String) : Prop :=
  Region.after none .code text.toList = .code

instance {text : String} : Decidable (EndsInCode text) :=
  inferInstanceAs (Decidable (_ = _))

/-- A slash at the end of the first text begins a comment with the second text. -/
def OpensComment (first second : String) : Prop :=
  EndsInSlash first.toList ∧ (second.toList.head? = some '/' ∨ second.toList.head? = some '*')

instance : Decidable (OpensComment first second) :=
  inferInstanceAs (Decidable (_ ∧ _))

/-- What is seen of the second text where it stands behind the first. -/
def seenBehind (first second : String) : Option (List Char) :=
  Text.dropBytes? (Text.byteSize first.toList) (mask (first ++ second)).toList

theorem toList_mask_append (first second : String) : (mask (first ++ second)).toList =
    maskUntil second.toList.head? .code first.toList ++
      maskFrom (Region.after second.toList.head? .code first.toList) second.toList := by
  rw [mask, String.toList_ofList, String.toList_append, maskChars, maskFrom_append]

theorem toList_mask_append_of_not_opens (hcode : EndsInCode first)
    (hopens : ¬ OpensComment first second) :
    (mask (first ++ second)).toList = maskChars first.toList ++ maskChars second.toList := by
  have hslash (hends : EndsInSlash first.toList) :
      second.toList.head? ≠ some '/' ∧ second.toList.head? ≠ some '*' :=
    not_or.mp fun hfollows => hopens ⟨hends, hfollows⟩
  obtain ⟨hafter, hmask⟩ := after_eq_code_of_not_slash hcode hslash
  rw [toList_mask_append, hafter, hmask]
  rfl

theorem seenBehind_of_not_opens (hcode : EndsInCode first) (hopens : ¬ OpensComment first second) :
    seenBehind first second = some (maskChars second.toList) := by
  have hsize : Text.byteSize first.toList = Text.byteSize (maskChars first.toList) :=
    (byteSize_maskFrom .code first.toList).symm
  rw [seenBehind, toList_mask_append_of_not_opens hcode hopens, hsize, Text.dropBytes?_byteSize]

/-- A text that ends in the code and the text behind it are masked each by itself, unless the cut
between them goes through the beginning of a comment; then the slash in front of the cut is hidden
as well. So another such text in front changes nothing of what is seen behind it. -/
theorem mask_append_iff (hcode : EndsInCode first) (second : String) :
    (mask (first ++ second) = mask first ++ mask second ↔ ¬ OpensComment first second) ∧
      ∀ other : String, EndsInCode other → ¬ OpensComment first second →
        ¬ OpensComment other second →
          ∃ seen, seenBehind first second = some seen ∧ seenBehind other second = some seen := by
  refine ⟨⟨fun heq hopens => ?_, fun hopens => ?_⟩, fun other hother hopens hopens' => ?_⟩
  · obtain ⟨seen, halone, hbefore⟩ := maskChars_of_endsInSlash hopens.1
    have hchars := congrArg String.toList heq
    rw [toList_mask_append, hbefore _ hopens.2, String.toList_append, mask, String.toList_ofList,
      halone, List.append_assoc, List.append_assoc, List.append_cancel_left_eq] at hchars
    cases hchars
  · rw [← String.toList_inj, toList_mask_append_of_not_opens hcode hopens, String.toList_append,
      mask, mask, String.toList_ofList, String.toList_ofList]
  · exact ⟨_, seenBehind_of_not_opens hcode hopens, seenBehind_of_not_opens hother hopens'⟩

/-- In front of a number the slash at the end divides; in front of another slash it is the first one
of a comment. A comment in front of the number hides it no more than the quotient does. -/
theorem mask_append_iff_of_quotient :
    let first : String := "n = 'a/b' /"
    EndsInCode first ∧ EndsInCode "/* c */ " ∧
      mask (first ++ " 2") = mask first ++ mask " 2" ∧
      mask (first ++ "/ 2") ≠ mask first ++ mask "/ 2" ∧
      ∃ seen, seenBehind first " 2" = some seen ∧ seenBehind "/* c */ " " 2" = some seen := by
  intro first
  have hcode : EndsInCode first := by decide +kernel
  have hother : EndsInCode "/* c */ " := by decide +kernel
  have hopens : ¬ OpensComment first " 2" := by decide +kernel
  obtain ⟨happend, hseen⟩ := mask_append_iff hcode " 2"
  have hcut := mt (mask_append_iff hcode "/ 2").1.mp (not_not_intro (by decide +kernel))
  exact ⟨hcode, hother, happend.mpr hopens, hcut, hseen _ hother hopens (by decide +kernel)⟩

end LayerLint.Source
