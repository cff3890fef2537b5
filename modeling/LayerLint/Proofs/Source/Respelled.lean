import LayerLint.Proofs.Pattern.Respelling
import LayerLint.Proofs.Source.Reference
import LayerLint.Proofs.Source.WidenedDeclaration

/-! # References and declarations in texts with two spellings of a line break

No form tells a carriage return from a line feed, but for the literals: their insides end at a line
feed and go through a carriage return. As no quote follows before the line feed behind it, this is
no difference. So the same references and declarations are found with either spelling.
-/

namespace LayerLint.Source

open Pattern
open Text (Cursor Respells isBreak)
open Text.Cursor (Respelled)

theorem isBlind_someBlanks : someBlanks.IsBlind :=
  ⟨isBlind_blanks, isBlind_blanks⟩

namespace Reference

/-! ## References -/

theorem overlooks_quotedIn {quote : Char} (hquote : quote = '\'' ∨ quote = '"') :
    (quotedIn quote).Overlooks := by
  have hbreak (c : Char) (hc : isBreak c = true) : (c == quote) = false := by
    rw [isBreak, Bool.or_eq_true, beq_iff_eq, beq_iff_eq] at hc
    rcases hquote with rfl | rfl <;> rcases hc with rfl | rfl <;> rfl
  have hblind : ('\n' == quote) = ('\r' == quote) := by rw [hbreak _ rfl, hbreak _ rfl]
  have hclose : (all [one (· == quote)]).Overlooks := .of_isBlind ⟨hblind, trivial⟩
  -- in front of a line break no quote closes a literal
  have hnone {β : Type} (outcome : Cursor → Option (Captures × β)) (place : Cursor)
      (hplace : place.precedes isBreak = true) :
      handEnd ((all [one (· == quote)]).outcomeAt outcome) place = none := by
    obtain ⟨c, hc, hcbreak⟩ := (Option.any_eq_true _ _).mp hplace
    refine Option.map_eq_none_iff.mpr (Outcomes.pastAt_eq_none ?_)
    rw [Cursor.precedes, hc, Option.any_some, hbreak c hcbreak]
  intro β related outcome outcome' h
  -- what is remembered of the literal, and its closing quote
  have hinside {place place' : Cursor} (hplace : Respelled place place') :
      Option.Rel (Alike Respelled (Handed Respelled related))
        ((long fun c => c != quote && c != '\n').outcomeAt
          (handEnd ((all [one (· == quote)]).outcomeAt outcome)) place)
        ((long fun c => c != quote && c != '\n').outcomeAt
          (handEnd ((all [one (· == quote)]).outcomeAt outcome')) place') :=
    (hclose h).handEnd.sweepAt_long (Bool.and_false _) (hnone outcome) (hnone outcome') hplace
  have hnamed : SameAt (Alike Respelled related)
      ((named "specifier" (long fun c => c != quote && c != '\n')).outcomeAt
        ((all [one (· == quote)]).outcomeAt outcome))
      ((named "specifier" (long fun c => c != quote && c != '\n')).outcomeAt
        ((all [one (· == quote)]).outcomeAt outcome')) :=
    fun _ _ hplace => rel_named hplace (hinside hplace)
  exact hnamed.pastAt hblind

theorem overlooks_literal : literal.Overlooks :=
  (overlooks_quotedIn (.inr rfl)).orElse (overlooks_quotedIn (.inl rfl))

theorem overlooks_clauseOf {keyword : String} (h : keyword.toList.all (!isBreak ·) = true) :
    (clauseOf keyword).Overlooks := by
  have htype : typeWord.IsBlind := ⟨⟨isBlind_word (by decide), isBlind_someBlanks⟩, trivial⟩
  have hclause : (short isClauseChar).IsBlind := by
    change isClauseChar '\n' = isClauseChar '\r'
    decide
  apply Overlooks.all
  simp only [List.forall_mem_cons]
  exact ⟨.of_isBlind trivial, .of_isBlind (isBlind_word h), .of_isBlind isBlind_someBlanks,
    .of_isBlind htype, .of_isBlind hclause, .of_isBlind trivial,
    .of_isBlind (isBlind_word (by decide)), .of_isBlind isBlind_blanks, overlooks_literal,
    List.forall_mem_nil _⟩

theorem overlooks_callOf {keyword : String} (h : keyword.toList.all (!isBreak ·) = true) :
    (callOf keyword).Overlooks := by
  apply Overlooks.all
  simp only [List.forall_mem_cons]
  exact ⟨.of_isBlind trivial, .of_isBlind (isBlind_word h), .of_isBlind isBlind_blanks,
    .of_isBlind (isBlind_word (by decide)), .of_isBlind isBlind_blanks, overlooks_literal,
    .of_isBlind isBlind_blanks, .of_isBlind (isBlind_word (by decide)), List.forall_mem_nil _⟩

theorem overlooks_form {form : ReferenceKind × Pattern} (hform : form ∈ forms) :
    form.2.Overlooks := by
  simp only [forms, List.mem_cons, List.not_mem_nil, or_false] at hform
  rcases hform with rfl | rfl | rfl | rfl | rfl
  · exact overlooks_clauseOf (by decide)
  · apply Overlooks.all
    simp only [List.forall_mem_cons]
    exact ⟨.of_isBlind trivial, .of_isBlind (isBlind_word (by decide)), .of_isBlind isBlind_blanks,
      overlooks_literal, List.forall_mem_nil _⟩
  · exact overlooks_clauseOf (by decide)
  · exact overlooks_callOf (by decide)
  · exact overlooks_callOf (by decide)

theorem ofMatch?_respelled (source : List Char) (kind : ReferenceKind) {pattern : Pattern}
    {found found' : Match} (h : MatchAlike Respelled Respelled pattern found found') :
    ofMatch? source kind found' = ofMatch? source kind found := by
  unfold ofMatch? Match.get?
  rcases none_or_some_of_rel (h.captures.rel_lookup "specifier") with
    ⟨hnone, hnone'⟩ | ⟨span, span', hspan, hspan', halike⟩
  · rw [hnone, hnone']
  · rw [hspan, hspan']
    simp only [Option.bind_eq_bind, Option.bind_some, halike.start.offset_eq,
      halike.stop.offset_eq]

/-- With either spelling there are the same references. -/
theorem allInMasked_respelled (source : List Char) {masked masked' : List Char}
    (h : Respells masked masked') : allInMasked source masked' = allInMasked source masked := by
  rw [allInMasked, allInMasked]
  have hfound (form : ReferenceKind × Pattern) (hform : form ∈ forms) :
      (form.2.findAll masked').filterMap (ofMatch? source form.1) =
        (form.2.findAll masked).filterMap (ofMatch? source form.1) :=
    filterMap_eq_of_forall₂_of_eq ((overlooks_form hform).forall₂_findAll h)
      (ofMatch?_respelled source form.1)
  rw [List.flatMap_congr hfound]

end Reference

namespace Declaration

/-! ## Declarations -/

theorem isBlind_declaredName : declaredName.IsBlind := by
  have hstart : isNameStart '\n' = isNameStart '\r' := by decide
  have hpart : (Text.isWordChar '\n' || '\n' == '$') = (Text.isWordChar '\r' || '\r' == '$') := by
    decide +kernel
  exact ⟨hstart, hpart⟩

theorem isBlind_parameters {barred : List Char}
    (h : (!barred.contains '\n') = (!barred.contains '\r')) : (parameters barred).IsBlind :=
  ⟨⟨isBlind_word (by decide), h, isBlind_word (by decide), isBlind_blanks, trivial⟩, trivial⟩

theorem isBlind_form {form : DeclarationKind × Pattern} (hform : form ∈ forms) :
    form.2.IsBlind := by
  have hbrace : (one (· == '\x7b')).IsBlind := rfl
  simp only [forms, List.mem_cons, List.not_mem_nil, or_false] at hform
  rcases hform with rfl | rfl | rfl
  · exact ⟨trivial, isBlind_word (by decide), isBlind_someBlanks, isBlind_declaredName,
      isBlind_blanks, isBlind_parameters (by decide),
      ⟨⟨isBlind_word (by decide), trivial⟩, hbrace⟩, trivial⟩
  · exact ⟨trivial, isBlind_word (by decide), isBlind_someBlanks, isBlind_declaredName,
      isBlind_blanks, isBlind_parameters (by decide), isBlind_word (by decide), trivial⟩
  · exact ⟨trivial, ⟨⟨isBlind_word (by decide), isBlind_someBlanks⟩, trivial⟩,
      isBlind_word (by decide), isBlind_someBlanks, isBlind_declaredName, isBlind_blanks, hbrace,
      trivial⟩

theorem ofMatch?_respelled (source : List Char) {form : DeclarationKind × Pattern}
    (hform : form ∈ forms) {found found' : Match}
    (h : MatchAlike Respelled Respelled form.2 found found') :
    ofMatch? source form.1 found' = ofMatch? source form.1 found := by
  have hmark : isMemberMark '\n' = isMemberMark '\r' := by decide
  rw [ofMatch?, ofMatch?, h.start.before_any_eq hmark, h.start.offset_eq,
    h.text_eq_of_respelled (remembers_form hform)]

/-- With either spelling the same is declared. -/
theorem allInMasked_respelled (source : List Char) {masked masked' : List Char}
    (h : Respells masked masked') : allInMasked source masked' = allInMasked source masked := by
  rw [allInMasked, allInMasked]
  have hfound (form : DeclarationKind × Pattern) (hform : form ∈ forms) :
      (form.2.findAll masked').filterMap (ofMatch? source form.1) =
        (form.2.findAll masked).filterMap (ofMatch? source form.1) :=
    filterMap_eq_of_forall₂_of_eq ((Overlooks.of_isBlind (isBlind_form hform)).forall₂_findAll h)
      (ofMatch?_respelled source hform)
  rw [List.flatMap_congr hfound]

end Declaration

end LayerLint.Source
