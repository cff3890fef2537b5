import LayerLint.Proofs.Pattern.WideSearch
import LayerLint.Proofs.Source.Reference
import LayerLint.Proofs.Source.WidenedLiteral

/-! # References in a widened source text

The forms of references have the same matches in a masked text and in the same text widened by
blanks if no literal behind a word reaches the blanks. Where the literals that they end with can be
cut out of both sources, these have references of the same specifiers and forms, at offsets that
differ by the blanks.
-/

namespace LayerLint.Source

open Pattern
open Text (Cursor Span Widening)

/-! ## The forms -/

theorem isBlank_isClauseChar : ∀ c, Text.isBlank c = true → Reference.isClauseChar c = true :=
  Text.forall_isBlank (by decide)

theorem keeps_typeWord (w : Widening) : Keeps w Reference.typeWord .exact .loose := by
  have hword : Keeps w (word "type") .free .silent := Keeps.word (by decide) (by decide)
  have hblanks : Keeps w someBlanks .exact .free := Keeps.someBlanks.of_covers rfl rfl
  have htype : Keeps w (.andThen (word "type") someBlanks) .exact .loose :=
    (hword.andThen hblanks rfl).of_covers rfl rfl
  exact htype.maybe (.inr (.inl rfl)) rfl

namespace KeepsLiterals

variable {w : Widening} {keyword : String} (h : KeepsLiterals w)

include h

theorem keeps_fromLiteral : Keeps w (all [word "from", blanks, Reference.literal]) .exact .silent :=
  h (by decide) (by decide) (Keeps.empty rfl)

theorem keeps_clauseOf (hne : keyword.toList ≠ [])
    (hsolid : keyword.toList.all (!Text.isBlank ·) = true) :
    Keeps w (Reference.clauseOf keyword) .exact .silent := by
  have hfrom := Keeps.boundary.andThen h.keeps_fromLiteral rfl
  have hclause := (Keeps.short_of_open isBlank_isClauseChar).andThen hfrom rfl
  have htype := (keeps_typeWord w).andThen hclause rfl
  have hkeyword := (Keeps.word hne hsolid).andThen (Keeps.someBlanks.andThen htype rfl) rfl
  exact Keeps.boundary.andThen hkeyword rfl

theorem keeps_callOf (hne : keyword.toList ≠ [])
    (hsolid : keyword.toList.all (!Text.isBlank ·) = true) :
    Keeps w (Reference.callOf keyword) .exact .silent := by
  have hclose : Keeps w (word ")") .exact .silent :=
    (Keeps.word (by decide) (by decide)).of_covers rfl rfl
  have hblanks : Keeps w blanks .silent .free := Keeps.blanks.of_covers rfl rfl
  have hrest := hblanks.andThen hclose.last rfl
  have hliteral : Keeps w (all [word "(", blanks, Reference.literal, blanks, word ")"])
      .exact .silent := h (by decide) (by decide) hrest
  have hopen := Keeps.blanks.andThen hliteral rfl
  exact Keeps.boundary.andThen ((Keeps.word hne hsolid).andThen hopen rfl) rfl

theorem keeps_form {form : ReferenceKind × Pattern} (hform : form ∈ Reference.forms) :
    Keeps w form.2 .exact .silent := by
  simp only [Reference.forms, List.mem_cons, List.not_mem_nil, or_false] at hform
  rcases hform with rfl | rfl | rfl | rfl | rfl
  · exact h.keeps_clauseOf (by decide) (by decide)
  · have himport : Keeps w (all [word "import", blanks, Reference.literal]) .exact .silent :=
      h (by decide) (by decide) (Keeps.empty rfl)
    exact Keeps.boundary.andThen himport rfl
  · exact h.keeps_clauseOf (by decide) (by decide)
  · exact h.keeps_callOf (by decide) (by decide)
  · exact h.keeps_callOf (by decide) (by decide)

end KeepsLiterals

/-! ## All references -/

/-- A literal that stands in front of what is put into a source text, or behind it, is found there
too. -/
theorem Literal.slice?_inserted {w : Widening} {plain before added after : List Char}
    (literal : Literal plain) (hplain : plain = before ++ after)
    (hgap : Text.byteSize w.gap = Text.byteSize added)
    (hsplit : (∃ ahead, before = literal.before ++ literal.quote :: (literal.inside ++ ahead) ∧
        literal.offset + Text.byteSize literal.inside < Text.byteSize w.before) ∨
      ∃ middle, literal.before = before ++ middle ∧ Text.byteSize w.before ≤ literal.offset) :
    Text.slice? (before ++ (added ++ after)) (w.shift literal.offset)
      (w.shift (literal.offset + Text.byteSize literal.inside)) = some literal.inside := by
  have hoffset : literal.offset = Text.byteSize (literal.before ++ [literal.quote]) := rfl
  rcases hsplit with ⟨ahead, hbefore, hlt⟩ | ⟨middle, hbefore, hle⟩
  · rw [Widening.shift, Widening.shift, if_pos (by omega), if_pos hlt]
    have hsource : before ++ (added ++ after) = (literal.before ++ [literal.quote]) ++
        (literal.inside ++ (ahead ++ (added ++ after))) := by
      rw [hbefore]
      simp
    exact Text.slice?_of_split hsource hoffset rfl
  · have hafter : after =
        middle ++ literal.quote :: (literal.inside ++ literal.quote :: literal.rest) := by
      have hsource := hplain.symm.trans literal.source_eq
      rw [hbefore, List.append_assoc] at hsource
      exact List.append_cancel_left hsource
    rw [Widening.shift, Widening.shift, if_neg (by omega), if_neg (by omega), hgap]
    have hsource : before ++ (added ++ after) =
        (before ++ (added ++ (middle ++ [literal.quote]))) ++
          (literal.inside ++ literal.quote :: literal.rest) := by
      rw [hafter]
      simp
    have hstart : literal.offset + Text.byteSize added =
        Text.byteSize (before ++ (added ++ (middle ++ [literal.quote]))) := by
      rw [hoffset, hbefore]
      simp only [Text.byteSize_append]
      omega
    exact Text.slice?_of_split hsource hstart (Nat.add_right_comm _ _ _)

/-- The reference at the same place of the wide text. -/
def Reference.shift (w : Widening) (reference : Reference) : Reference :=
  { reference with offset := w.shift reference.offset }

/-- A source text whose masked form is widened, and one from which the literals can be cut out at
their places in the wide text. -/
structure Spread (w : Widening) (plain spread : List Char) : Prop where
  maskChars_plain : maskChars plain = w.narrow
  keepsLiterals : KeepsLiterals w
  slice?_literal : ∀ literal : Literal plain, '\n' ∉ literal.inside →
    Text.slice? spread (w.shift literal.offset)
      (w.shift (literal.offset + Text.byteSize literal.inside)) = some literal.inside

namespace Spread

variable {w : Widening} {plain spread : List Char} (h : Spread w plain spread)

include h

/-- The quoted groups of matches that stand for each other have the same text in both sources. -/
theorem slice?_quotation {start start' stop stop' : Cursor} {captures captures' : Captures}
    (quotation : Quotation start captures stop) (quotation' : Quotation start' captures' stop')
    (hstart : start ∈ Cursor.places w.narrow)
    (hopening : w.Near quotation.opening quotation'.opening)
    (hclosing : w.Near quotation.closing quotation'.closing) :
    quotation'.opening.offset = w.shift quotation.opening.offset ∧
      Text.slice? spread quotation'.opening.offset quotation'.closing.offset =
        Text.slice? plain quotation.opening.offset quotation.closing.offset := by
  have hquote := isBlank_eq_false_of_isDelimiter (isDelimiter_of_isQuote quotation'.isQuote)
  have hopens := (hopening.twin_of_before quotation'.before_opening hquote).offset_eq
  have hcloses := (hclosing.twin_of_rest quotation'.reads_trail.rest_eq hquote).offset_eq
  rw [← h.maskChars_plain] at hstart
  obtain ⟨literal, hoffset, hend, hline, -⟩ := quotation.exists_literal hstart
  refine ⟨hopens, ?_⟩
  rw [hopens, hcloses, hoffset, hend, h.slice?_literal literal hline, literal.slice?_offset]

theorem ofMatch?_eq {form : ReferenceKind × Pattern} (hform : form ∈ Reference.forms)
    {found found' : Match} (halike : MatchAlike w.Twin w.Near form.2 found found') :
    Reference.ofMatch? spread form.1 found' =
      (Reference.ofMatch? plain form.1 found).map (Reference.shift w) := by
  obtain ⟨quotation⟩ := Reference.quotation_of_form hform halike.accepts
  obtain ⟨quotation'⟩ := Reference.quotation_of_form hform halike.accepts'
  have hspan := halike.captures
  rw [quotation.captures_eq, quotation'.captures_eq] at hspan
  obtain ⟨⟨-, hspan⟩, -⟩ := List.forall₂_cons.mp hspan
  obtain ⟨hoffset, hslice⟩ :=
    h.slice?_quotation quotation quotation' halike.start.mem_places.1 hspan.start hspan.stop
  have hget : found.get? "specifier" = some ⟨quotation.opening, quotation.closing⟩ :=
    congrArg (List.lookup "specifier") quotation.captures_eq
  have hget' : found'.get? "specifier" = some ⟨quotation'.opening, quotation'.closing⟩ :=
    congrArg (List.lookup "specifier") quotation'.captures_eq
  simp only [Reference.ofMatch?, hget, hget', Option.bind_eq_bind, Option.bind_some, hslice]
  cases Text.slice? plain quotation.opening.offset quotation.closing.offset with
  | none => rfl
  | some specifier =>
      simp only [Option.bind_some]
      split
      · rfl
      · rw [hoffset]
        rfl

theorem byForm_eq : Reference.byForm spread w.wide =
    (Reference.byForm plain w.narrow).map (Reference.shift w) := by
  rw [Reference.byForm, Reference.byForm, List.map_flatMap]
  apply List.flatMap_congr
  intro form hform
  exact filterMap_eq_of_forall₂ (h.keepsLiterals.keeps_form hform).forall₂_findAll
    (h.ofMatch?_eq hform)

omit h in
theorem dropRepeats_map_shift (last : Option Nat) (references : List Reference) :
    Reference.dropRepeats (last.map w.shift) (references.map (Reference.shift w)) =
      (Reference.dropRepeats last references).map (Reference.shift w) := by
  induction references generalizing last with
  | nil => rfl
  | cons found rest ih =>
      have hsame : some (found.shift w).offset = last.map w.shift ↔ some found.offset = last := by
        cases last with
        | none => simp
        | some offset => simp [Reference.shift, w.shift_inj]
      rw [List.map_cons, Reference.dropRepeats, Reference.dropRepeats]
      simp only [hsame]
      split
      · exact ih last
      · exact congrArg (found.shift w :: ·) (ih (some found.offset))

/-- The wide text has the same references, those behind the blanks at greater offsets. -/
theorem allInMasked_eq : Reference.allInMasked spread w.wide =
    (Reference.allInMasked plain w.narrow).map (Reference.shift w) := by
  have horder (first second : Reference) : Reference.inOrder first second =
      Reference.inOrder (first.shift w) (second.shift w) := by
    rw [Bool.eq_iff_iff, Reference.inOrder_iff, Reference.inOrder_iff]
    simp only [Reference.shift, w.shift_lt_shift_iff, w.shift_inj]
  rw [Reference.allInMasked, Reference.allInMasked, ← dropRepeats_map_shift]
  refine congrArg (Reference.dropRepeats none) ?_
  change List.mergeSort (Reference.byForm _ _) _ = (List.mergeSort (Reference.byForm _ _) _).map _
  rw [h.byForm_eq]
  exact (List.map_mergeSort fun first _ second _ => horder first second).symm

end Spread

end LayerLint.Source
