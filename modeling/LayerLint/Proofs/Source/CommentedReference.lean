import LayerLint.Proofs.Source.Comment
import LayerLint.Proofs.Source.WidenedReference

/-! # References around a comment

A literal behind a word does not reach a comment that is put in: the quote there opens a literal of
the code, which ends before the comment. So the forms of references have the same matches with the
comment, the literals that they end with can still be cut out of the source, and the references have
the same specifiers and forms.
-/

namespace LayerLint.Source

open Pattern
open Text (Cursor Widening)

namespace Commenting

variable {text : Commenting} {keyword : String} {place stop : Cursor} {captures : Captures}

/-- Behind a word and blanks no literal reaches the comment. -/
theorem not_crossing_of_accepts (hne : keyword.toList ≠ [])
    (hsolid : keyword.toList.all (fun c => !Text.isBlank c && !isDelimiter c) = true)
    {more : List Char} (hplace : place ∈ Cursor.places (text.widening.before ++ more))
    (h : (andThen (word keyword) blanks).Accepts place captures stop) :
    ¬Crossing text.widening stop.offset := by
  rintro ⟨front, quote, inside, hquote, hsplit, hoffset, hopen⟩
  cases h with
  | andThen hword hblanks =>
      obtain ⟨-, hkeyword⟩ := hword.reads_of_word
      cases hblanks with
      | @long _ _ _ run hrun hblank =>
          obtain ⟨before, hnarrow, hbefore⟩ := Cursor.eq_append_of_mem_places hplace
          obtain ⟨letters, last, hletters⟩ : ∃ letters last, keyword.toList = letters ++ [last] :=
            (List.eq_nil_or_concat' _).resolve_left hne
          have hfront : front = before ++ (letters ++ last :: run) := by
            apply Text.eq_of_append_eq_append
            · rw [hkeyword.rest_eq, hrun.rest_eq, hletters, hsplit] at hnarrow
              simpa using hnarrow
            · rw [← hoffset, hrun.offset_eq, hkeyword.offset_eq, hbefore, hletters]
              simp only [Text.byteSize_append, Text.byteSize_cons, Text.byteSize_nil]
              omega
          have hlast := List.all_eq_true.mp hsolid last (by rw [hletters]; simp)
          rw [Bool.and_eq_true, Bool.not_eq_true', Bool.not_eq_true'] at hlast
          have hplain {c : Char} (hc : Text.isBlank c = true) : last ≠ c := by
            rintro rfl
            rw [hlast.1] at hc
            cases hc
          have hmasked : text.widening.before =
              (before ++ letters) ++ last :: (run ++ quote :: inside) := by
            rw [hsplit, hfront]
            simp
          obtain ⟨c, hc, hcloses⟩ := text.exists_closing_mem hmasked
            ⟨hplain (by decide), hplain (by decide), hplain (by decide), hlast.2⟩
            (fun c hc => isDelimiter_of_isBlank c (hblank c hc)) hquote
          exact hcloses.elim (hopen c hc).1 (hopen c hc).2

/-! ## Literals -/

/-- A literal stands behind the place of the comment, or it is closed in front of it. -/
theorem exists_literal_split (literal : Literal text.plain) :
    (∃ middle, literal.before = text.before ++ middle) ∨ ∃ ahead, text.before =
      literal.before ++ literal.quote :: (literal.inside ++ literal.quote :: ahead) := by
  have hcode (rest : List Char) : regionAt text.before rest = .code :=
    (after_eq_code text.before_code text.before_blank rest.head?).1
  rcases List.append_eq_append_iff.mp literal.source_eq with
    ⟨middle, hbefore, hafter⟩ | ⟨middle, hbefore, hafter⟩
  · exact .inl ⟨middle, hbefore⟩
  · cases middle with
    | nil => exact .inl ⟨[], by simpa using hbefore.symm⟩
    | cons quote middle =>
        obtain ⟨rfl, hinside⟩ := List.cons.inj hafter
        -- the text in front of the comment ends in the code, and so not inside the literal
        have hclosed : middle ≠ literal.inside := by
          rintro rfl
          have hcloses := literal.closes
          rw [← hbefore, hcode] at hcloses
          cases hcloses
        rcases List.append_eq_append_iff.mp hinside with
          ⟨ahead, hmiddle, hahead⟩ | ⟨ahead, hmiddle, -⟩
        · cases ahead with
          | nil => exact (hclosed (by simpa using hmiddle)).elim
          | cons quote ahead =>
              obtain ⟨rfl, -⟩ := List.cons.inj hahead
              exact .inr ⟨ahead, by rw [hbefore, hmiddle]⟩
        · cases ahead with
          | nil => exact (hclosed (by simpa using hmiddle.symm)).elim
          | cons c ahead =>
              have hstays := literal.stays middle c ahead hmiddle
              rw [← hbefore, hcode] at hstays
              cases hstays

/-- The inside of a literal is found with the comment too. -/
theorem slice?_literal (literal : Literal text.plain) :
    Text.slice? text.commented (text.widening.shift literal.offset)
        (text.widening.shift (literal.offset + Text.byteSize literal.inside)) =
      some literal.inside := by
  have hoffset : literal.offset = Text.byteSize (literal.before ++ [literal.quote]) := rfl
  apply literal.slice?_inserted rfl text.byteSize_gap
  rcases exists_literal_split literal with ⟨middle, hbefore⟩ | ⟨ahead, hbefore⟩
  · refine .inr ⟨middle, hbefore, ?_⟩
    rw [text.byteSize_before, hoffset, hbefore]
    simp only [Text.byteSize_append]
    omega
  · refine .inl ⟨literal.quote :: ahead, hbefore, ?_⟩
    have := Text.byteSize_cons_pos literal.quote ahead
    rw [text.byteSize_before, hoffset, hbefore]
    simp only [Text.byteSize_append, Text.byteSize_cons, Text.byteSize_nil] at this ⊢
    omega

variable (text)

/-- A comment widens the masked text and keeps the literals. -/
theorem spread : Spread text.widening text.plain text.commented where
  maskChars_plain := text.maskChars_plain
  keepsLiterals := KeepsLiterals.of_not_crossing fun _ hne hsolid _ _ _ _ hplace haccepts =>
    not_crossing_of_accepts hne hsolid hplace haccepts
  slice?_literal literal _ := slice?_literal literal

/-- With the comment there are the same references, those behind it at greater offsets. -/
theorem allInMasked_commented : Reference.allInMasked text.commented (maskChars text.commented) =
    (Reference.allInMasked text.plain (maskChars text.plain)).map
      (Reference.shift text.widening) := by
  rw [text.maskChars_commented, text.maskChars_plain]
  exact text.spread.allInMasked_eq

end Commenting

end LayerLint.Source
