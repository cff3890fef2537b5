import LayerLint.Proofs.Pattern.Widening
import LayerLint.Proofs.Source.Quotation
import LayerLint.Source.Reference

/-! # Literals of a widened text

A literal has blanks inside, so it may begin before the place where blanks are put in and end behind
it, as far as its pattern goes. The other literals have the same matches in a text and in the same
text widened by blanks; so have literals behind a word where none of those goes through the blanks.
-/

namespace LayerLint.Source

open Pattern
open Text (Cursor Span Widening)
open Text.Cursor (between)

/-- At the offset stands a quote that neither itself nor a line feed follows before the blanks. -/
def Crossing (w : Widening) (offset : Nat) : Prop :=
  ∃ first quote inside, (quote = '\'' ∨ quote = '"') ∧ w.before = first ++ quote :: inside ∧
    offset = Text.byteSize first ∧ ∀ c ∈ inside, c ≠ quote ∧ c ≠ '\n'

theorem Crossing.offset_lt {w : Widening} {offset : Nat} (h : Crossing w offset) :
    offset < Text.byteSize w.before := by
  obtain ⟨first, quote, inside, -, hsplit, rfl, -⟩ := h
  have := Text.byteSize_cons_pos quote inside
  rw [hsplit, Text.byteSize_append]
  omega

theorem crossing_iff {w : Widening} {place place' : Cursor} (h : w.Twin place place') :
    Crossing w place.offset ↔ Crossing w place'.offset := by
  cases h with
  | ahead hsplit => exact Iff.rfl
  | @behind first second hsplit =>
      have hout (more : List Char) : ¬Crossing w (Text.byteSize (w.before ++ more)) := by
        intro hcrossing
        have := hcrossing.offset_lt
        rw [Text.byteSize_append] at this
        omega
      exact iff_of_false (hout _) (hout _)

theorem isDelimiter_of_isBlank : ∀ c, Text.isBlank c = true → isDelimiter c = false :=
  Text.forall_isBlank_not (by decide)

theorem isQuote_of_isBlank {quote : Char} (hquote : quote = '\'' ∨ quote = '"') :
    ∀ c, Text.isBlank c = true → (c == quote) = false := by
  rcases hquote with rfl | rfl
  · exact Text.forall_isBlank_not (by decide)
  · exact Text.forall_isBlank_not (by decide)

section

variable {w : Widening} {β : Type} {related : β → β → Prop} {place place' : Cursor}
variable {outcome outcome' : Cursor → Option (Captures × β)}

theorem pastAt_between (ok : Char → Bool) (outcome : Cursor → Option (Captures × β))
    (before : List Char) (c : Char) (rest : List Char) :
    Outcomes.pastAt ok outcome (between before (c :: rest)) =
      if ok c then outcome (between (before ++ [c]) rest) else none := by
  rw [← Cursor.past_between]
  rfl

theorem outcomeAt_quotedIn (quote : Char) (outcome : Cursor → Option (Captures × β)) :
    (Reference.quotedIn quote).outcomeAt outcome = Outcomes.pastAt (· == quote)
      ((named "specifier" (long fun c => c != quote && c != '\n')).outcomeAt
        ((all [one (· == quote)]).outcomeAt outcome)) := rfl

theorem rel_quotedIn {quote : Char} (hquote : quote = '\'' ∨ quote = '"')
    (h : Follows w .free (Alike w.Near related) outcome outcome') (htwin : w.Twin place place')
    (hcrossing : ¬Crossing w place.offset) :
    Option.Rel (Alike w.Near related) ((Reference.quotedIn quote).outcomeAt outcome place)
      ((Reference.quotedIn quote).outcomeAt outcome' place') := by
  have hclose : Keeps w (all [one (· == quote)]) .free .silent :=
    (Keeps.one_of_solid (isQuote_of_isBlank hquote)).last
  have hinside : Follows w .free (Alike w.Near (Handed w.Near related))
      (handEnd ((all [one (· == quote)]).outcomeAt outcome))
      (handEnd ((all [one (· == quote)]).outcomeAt outcome')) :=
    (hclose _ _ _ _ h).handEnd.of_covers rfl
  rw [outcomeAt_quotedIn, outcomeAt_quotedIn]
  have hruns := looksAhead_long (α := Captures × (Cursor × β)) fun c => c != quote && c != '\n'
  cases htwin with
  | @ahead first second c hsplit =>
      rw [pastAt_between, pastAt_between]
      split
      next hc =>
        obtain rfl := eq_of_beq hc
        have hstops : ∃ d ∈ second, (d != c && d != '\n') = false := by
          by_contra hnone
          refine hcrossing ⟨first, c, second, hquote, hsplit, rfl, fun d hd => ?_⟩
          by_contra hstop
          exact hnone ⟨d, hd, by simpa using hstop⟩
        cases second with
        | nil => simp at hstops
        | cons d second =>
            have hnext : w.before = (first ++ [c]) ++ d :: second := by
              rw [hsplit, List.append_assoc]
              rfl
            exact rel_named (.inl (.ahead hnext))
              (hinside.rel_sweepAt_ahead hruns (.inl hstops) hnext)
      next => exact .none
  | @behind first second hsplit =>
      cases second with
      | nil => exact .none
      | cons c second =>
          have hnext : w.after = (first ++ [c]) ++ second := by
            rw [hsplit, List.append_assoc]
            rfl
          rw [pastAt_between, pastAt_between, List.append_assoc, List.append_assoc,
            List.append_assoc]
          split
          next =>
            exact rel_named (.inl (.behind hnext)) (hinside.rel_sweepAt_behind hruns hnext)
          next => exact .none

theorem literal_eq_none (hgap : w.InGap place) :
    Reference.literal.outcomeAt outcome place = none := by
  have hquoted {quote : Char} (hquote : quote = '\'' ∨ quote = '"') :
      (Reference.quotedIn quote).outcomeAt outcome place = none :=
    pastAt_eq_none_of_inGap (isQuote_of_isBlank hquote) hgap
  exact Option.or_eq_none_iff.mpr ⟨hquoted (.inr rfl), hquoted (.inl rfl)⟩

open Classical in
/-- A literal, but for those that would reach the blanks. -/
noncomputable def literalAside (w : Widening) (outcome : Cursor → Option (Captures × β))
    (place : Cursor) : Option (Captures × β) :=
  if Crossing w place.offset then none else Reference.literal.outcomeAt outcome place

theorem follows_literalAside (h : Follows w .free (Alike w.Near related) outcome outcome') :
    Follows w .silent (Alike w.Near related) (literalAside w outcome) (literalAside w outcome') where
  twin := by
    intro place place' htwin
    unfold literalAside
    by_cases hcrossing : Crossing w place.offset
    · rw [if_pos hcrossing, if_pos ((crossing_iff htwin).mp hcrossing)]
      exact .none
    · rw [if_neg hcrossing, if_neg (mt (crossing_iff htwin).mpr hcrossing)]
      exact rel_or (rel_quotedIn (.inr rfl) h htwin hcrossing)
        (rel_quotedIn (.inl rfl) h htwin hcrossing)
  gap := by
    intro place hgap
    change literalAside w outcome' place = none
    unfold literalAside
    split
    · rfl
    · exact literal_eq_none hgap

end

/-! ## Behind a word -/

/-- A literal behind a word and blanks has the same matches in both texts, whatever comes after
it. -/
def KeepsLiterals (w : Widening) : Prop :=
  ∀ ⦃keyword : String⦄ ⦃rest : Pattern⦄ ⦃level : Level⦄, keyword.toList ≠ [] →
    keyword.toList.all (fun c => !Text.isBlank c && !isDelimiter c) = true →
    Keeps w rest level .free →
    Keeps w (.andThen (word keyword) (.andThen blanks (.andThen Reference.literal rest)))
      level .silent

theorem KeepsLiterals.of_not_crossing {w : Widening}
    (hout : ∀ (keyword : String), keyword.toList ≠ [] →
      keyword.toList.all (fun c => !Text.isBlank c && !isDelimiter c) = true →
      ∀ (place stop : Cursor) (captures : Captures) (more : List Char),
        place ∈ Cursor.places (w.before ++ more) →
        (andThen (word keyword) blanks).Accepts place captures stop → ¬Crossing w stop.offset) :
    KeepsLiterals w := by
  intro keyword rest level hne hsolid hrest β related outcome outcome' h
  have hword : Keeps w (word keyword) .free .silent := by
    refine Keeps.word hne (List.all_eq_true.mpr fun c hc => ?_)
    exact (Bool.and_eq_true _ _ ▸ List.all_eq_true.mp hsolid c hc).1
  have hblanks : Keeps w blanks .silent .exact := Keeps.blanks.of_covers rfl rfl
  have hlead : Keeps w (.andThen (word keyword) blanks) .silent .silent :=
    hword.andThen hblanks rfl
  have haside := hlead _ _ _ _ (follows_literalAside (hrest _ _ _ _ h))
  -- where the word and the blanks end, no literal is left aside
  have hsame (outcome : Cursor → Option (Captures × β)) {more : List Char} {place : Cursor}
      (hplace : place ∈ Cursor.places (w.before ++ more)) :
      (Pattern.andThen (word keyword) (.andThen blanks (.andThen Reference.literal rest))).outcomeAt
          outcome place =
        (Pattern.andThen (word keyword) blanks).outcomeAt
          (literalAside w (rest.outcomeAt outcome)) place := by
    change (Pattern.andThen (word keyword) blanks).outcomeAt
      (Reference.literal.outcomeAt (rest.outcomeAt outcome)) place = _
    apply outcomeAt_congr
    intro captures stop haccepts
    exact (if_neg (hout keyword hne hsolid place stop captures more hplace haccepts)).symm
  constructor
  · intro place place' htwin
    rw [hsame outcome htwin.mem_places.1, hsame outcome' htwin.mem_places.2]
    exact haside.twin htwin
  · intro place hgap
    change Pattern.outcomeAt _ outcome' place = none
    rw [hsame outcome' hgap.mem_places]
    exact haside.gap hgap

end LayerLint.Source
