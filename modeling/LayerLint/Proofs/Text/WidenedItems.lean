import LayerLint.Proofs.Text.Widening
import Mathlib.Data.List.DropRight

/-! # The items of a widened text

A text that is cut at a character and the same text widened by blanks have the same items, but for
one that is widened too. Without the blanks around it that item is the same in both texts, unless the
blanks are put in between two parts of it that are not blank.
-/

namespace LayerLint.Text

/-! ## Cutting -/

theorem splitOnP_append_of_forall {cut : Char → Bool} {first : List Char}
    (h : ∀ c ∈ first, cut c = false) (second : List Char) :
    (first ++ second).splitOnP cut = (second.splitOnP cut).modifyHead (first ++ ·) := by
  induction first with
  | nil => exact (congrFun List.modifyHead_id _).symm
  | cons c first ih =>
      obtain ⟨hc, hfirst⟩ := List.forall_mem_cons.mp h
      rw [List.cons_append, List.splitOnP_cons_eq_if_modifyHead, hc, if_neg Bool.false_ne_true,
        ih hfirst, List.modifyHead_modifyHead]
      rfl

/-- What the first part of a text is cut into does not depend on the second part, and the last of its
items goes on with the first item of that. -/
theorem exists_splitOnP_append (cut : Char → Bool) (first : List Char) :
    ∃ items last, last <:+ first ∧ ∀ second, (first ++ second).splitOnP cut =
      items ++ (second.splitOnP cut).modifyHead (last ++ ·) := by
  suffices h : ∃ items last, last <:+ first ∧ (items = [] → last = first) ∧
      ∀ second, (first ++ second).splitOnP cut =
        items ++ (second.splitOnP cut).modifyHead (last ++ ·) by
    obtain ⟨items, last, hsuffix, -, hcut⟩ := h
    exact ⟨items, last, hsuffix, hcut⟩
  induction first with
  | nil => exact ⟨[], [], List.suffix_rfl, fun _ => rfl, fun _ => (congrFun List.modifyHead_id _).symm⟩
  | cons c first ih =>
      obtain ⟨items, last, hsuffix, hwhole, hcut⟩ := ih
      by_cases hc : cut c = true
      · refine ⟨[] :: items, last, hsuffix.trans (List.suffix_cons c first), by simp, ?_⟩
        intro second
        rw [List.cons_append, List.splitOnP_cons_eq_if_modifyHead, if_pos hc, hcut]
        rfl
      · cases items with
        | nil =>
            obtain rfl := hwhole rfl
            refine ⟨[], c :: last, List.suffix_rfl, fun _ => rfl, ?_⟩
            intro second
            rw [List.cons_append, List.splitOnP_cons_eq_if_modifyHead, if_neg hc, hcut,
              List.nil_append, List.nil_append, List.modifyHead_modifyHead]
            rfl
        | cons item items =>
            refine ⟨(c :: item) :: items, last, hsuffix.trans (List.suffix_cons c first), by simp, ?_⟩
            intro second
            rw [List.cons_append, List.splitOnP_cons_eq_if_modifyHead, if_neg hc, hcut]
            rfl

/-- The items of a text and of the same text widened are the same but for blanks. -/
theorem Widens.splitOnP {narrow wide : List Char} (h : Widens narrow wide) {cut : Char → Bool}
    (hcut : ∀ c, isBlank c = true → cut c = false) :
    List.Forall₂ Widens (narrow.splitOnP cut) (wide.splitOnP cut) := by
  obtain ⟨w, rfl, rfl⟩ := h
  obtain ⟨items, last, ⟨front, hsuffix⟩, hitems⟩ := exists_splitOnP_append cut w.before
  have hgap := splitOnP_append_of_forall (fun c hc => hcut c (w.gap_blank c hc)) w.after
  rw [Widening.narrow, Widening.wide, hitems, hitems, hgap]
  have hsame (items : List (List Char)) : List.Forall₂ Widens items items :=
    List.forall₂_same.mpr fun item _ => .refl item
  apply List.rel_append (hsame items)
  obtain ⟨head, tail, hsplit⟩ := List.exists_cons_of_ne_nil (List.splitOnP_ne_nil cut w.after)
  rw [hsplit]
  refine .cons ⟨⟨last, w.gap, head, w.gap_blank, ?_⟩, rfl, rfl⟩ (hsame tail)
  intro c hc
  apply w.before_blank
  rw [← hsuffix, List.getLast?_append, hc, Option.some_or]

/-! ## Trimming -/

theorem trimChars_eq (text : List Char) :
    trimChars text = (text.dropWhile isBlank).rdropWhile isBlank := rfl

theorem rdropWhile_append_of_forall {first second : List Char}
    (h : ∀ c ∈ second, isBlank c = true) :
    (first ++ second).rdropWhile isBlank = first.rdropWhile isBlank := by
  rw [List.rdropWhile, List.reverse_append, List.dropWhile_append_of_pos]
  · rfl
  · intro c hc
    exact h c (List.mem_reverse.mp hc)

theorem rdropWhile_append_of_ne_nil {first second : List Char}
    (h : second.rdropWhile isBlank ≠ []) :
    (first ++ second).rdropWhile isBlank = first ++ second.rdropWhile isBlank := by
  have hne : (second.reverse.dropWhile isBlank).isEmpty = false := by
    rw [List.isEmpty_eq_false_iff]
    exact mt List.reverse_eq_nil_iff.mpr h
  rw [List.rdropWhile, List.reverse_append, List.dropWhile_append, hne, if_neg Bool.false_ne_true,
    List.reverse_append, List.reverse_reverse]
  rfl

/-- Without the blanks around it a widened text is the narrow one, or it is widened inside. -/
theorem Widens.trimChars {narrow wide : List Char} (h : Widens narrow wide) :
    Text.trimChars narrow = Text.trimChars wide ∨
      ∃ w : Widening, w.before ≠ [] ∧ Text.trimChars narrow = w.narrow ∧
        Text.trimChars wide = w.wide := by
  obtain ⟨w, rfl, rfl⟩ := h
  rw [trimChars_eq, trimChars_eq, Widening.narrow, Widening.wide]
  by_cases hbefore : ∀ c ∈ w.before, isBlank c = true
  · left
    rw [List.dropWhile_append_of_pos hbefore, List.dropWhile_append_of_pos hbefore,
      List.dropWhile_append_of_pos w.gap_blank]
  · have hne : w.before.dropWhile isBlank ≠ [] := mt List.dropWhile_eq_nil_iff.mp hbefore
    have hdrop (more : List Char) :
        (w.before ++ more).dropWhile isBlank = w.before.dropWhile isBlank ++ more := by
      rw [List.dropWhile_append, List.isEmpty_eq_false_iff.mpr hne, if_neg Bool.false_ne_true]
    rw [hdrop, hdrop]
    by_cases hafter : ∀ c ∈ w.after, isBlank c = true
    · left
      rw [rdropWhile_append_of_forall hafter, ← List.append_assoc,
        rdropWhile_append_of_forall hafter, rdropWhile_append_of_forall w.gap_blank]
    · have hrest : w.after.rdropWhile isBlank ≠ [] := mt List.rdropWhile_eq_nil_iff.mp hafter
      right
      refine ⟨⟨w.before.dropWhile isBlank, w.gap, w.after.rdropWhile isBlank, w.gap_blank, ?_⟩,
        hne, rdropWhile_append_of_ne_nil hrest, ?_⟩
      · intro c hc
        obtain ⟨front, hsuffix⟩ := List.dropWhile_suffix isBlank (l := w.before)
        apply w.before_blank
        rw [← hsuffix, List.getLast?_append, hc, Option.some_or]
      · rw [← List.append_assoc, rdropWhile_append_of_ne_nil hrest, List.append_assoc]
        rfl

end LayerLint.Text
