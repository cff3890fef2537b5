import LayerLint.Proofs.Pattern.Alike
import LayerLint.Proofs.Text.Blank

/-! # Texts with two spellings of a line break

In front of a line feed stands another line feed in one text, and a carriage return in the other.
Places of both texts stand for each other at the same offsets, and a pattern whose classes do not
tell the two characters apart finds the same.
-/

namespace LayerLint.Text

/-- The second text is the first one, with carriage returns in place of line feeds that another line
feed follows. -/
inductive Respells : List Char → List Char → Prop
  | nil : Respells [] []
  | cons (c : Char) {rest rest' : List Char} (h : Respells rest rest') :
      Respells (c :: rest) (c :: rest')
  | lineBreak {rest rest' : List Char} (h : Respells rest rest') :
      Respells ('\n' :: '\n' :: rest) ('\r' :: '\n' :: rest')

/-- Whether a character may be a part of a line break. -/
def isBreak (c : Char) : Bool :=
  c == '\n' || c == '\r'

/-- The same character, or a line feed and a carriage return. -/
def SameBreak (c c' : Char) : Prop :=
  c = c' ∨ (c = '\n' ∧ c' = '\r')

theorem SameBreak.utf8Size_eq {c c' : Char} (h : SameBreak c c') : c.utf8Size = c'.utf8Size := by
  rcases h with rfl | ⟨rfl, rfl⟩ <;> rfl

theorem SameBreak.eq_of_blind {α : Type} {ok : Char → α} (hok : ok '\n' = ok '\r') {c c' : Char}
    (h : SameBreak c c') : ok c = ok c' := by
  rcases h with rfl | ⟨rfl, rfl⟩
  · rfl
  · exact hok

namespace Respells

variable {text text' : List Char}

theorem refl (text : List Char) : Respells text text := by
  induction text with
  | nil => exact .nil
  | cons c rest ih => exact .cons c ih

theorem append_left (front : List Char) (h : Respells text text') :
    Respells (front ++ text) (front ++ text') := by
  induction front with
  | nil => exact h
  | cons c rest ih => exact .cons c ih

/-- Both texts go on with characters that are the same but for the spelling, or both end. -/
theorem step (h : Respells text text') : (text = [] ∧ text' = []) ∨
    ∃ c c' rest rest', text = c :: rest ∧ text' = c' :: rest' ∧ SameBreak c c' ∧
      Respells rest rest' := by
  cases h with
  | nil => exact .inl ⟨rfl, rfl⟩
  | cons c h => exact .inr ⟨c, c, _, _, rfl, rfl, .inl rfl, h⟩
  | lineBreak h => exact .inr ⟨'\n', '\r', _, _, rfl, rfl, .inr ⟨rfl, rfl⟩, .cons '\n' h⟩

/-- Beginnings of both texts with as many bytes are the same if there is no carriage return. -/
theorem eq_of_byteSize_eq (h : Respells text text') {piece piece' more more' : List Char}
    (htext : text = piece ++ more) (htext' : text' = piece' ++ more')
    (hsize : byteSize piece = byteSize piece') (hplain : '\r' ∉ piece') : piece = piece' := by
  induction piece generalizing text text' piece' with
  | nil =>
      cases piece' with
      | nil => rfl
      | cons c' piece' => exact (Cursor.eq_nil_of_byteSize_eq_zero hsize.symm).symm
  | cons c piece ih =>
      cases piece' with
      | nil => exact Cursor.eq_nil_of_byteSize_eq_zero hsize
      | cons c' piece' =>
          subst htext htext'
          rcases h.step with ⟨hnil, -⟩ | ⟨d, d', rest, rest', hcons, hcons', hsame, hrest⟩
          · cases hnil
          · obtain ⟨rfl, rfl⟩ := List.cons.inj hcons
            obtain ⟨rfl, rfl⟩ := List.cons.inj hcons'
            obtain rfl := hsame.resolve_right fun hbreak => hplain (hbreak.2 ▸ List.mem_cons_self)
            rw [byteSize_cons, byteSize_cons] at hsize
            have hplain' : '\r' ∉ piece' := fun hmem => hplain (List.mem_cons_of_mem _ hmem)
            rw [ih hrest rfl rfl (Nat.add_left_cancel hsize) hplain']

end Respells

namespace Cursor

/-- Places at the same offset of two texts that spell line breaks in their own ways. -/
structure Respelled (place place' : Cursor) : Prop where
  before : Option.Rel SameBreak place.before place'.before
  offset_eq : place.offset = place'.offset
  rest : Respells place.rest place'.rest

namespace Respelled

variable {place place' stop stop' : Cursor} {ok : Char → Bool}

theorem before_any_eq (h : place.Respelled place') (hok : ok '\n' = ok '\r') :
    place.before.any ok = place'.before.any ok := by
  obtain ⟨hbefore, -, -⟩ := h
  generalize place.before = before at hbefore
  generalize place'.before = before' at hbefore
  cases hbefore with
  | none => rfl
  | some hsame => exact hsame.eq_of_blind hok

theorem precedes_eq (h : place.Respelled place') (hok : ok '\n' = ok '\r') :
    place.precedes ok = place'.precedes ok := by
  unfold precedes
  rcases h.rest.step with ⟨hrest, hrest'⟩ | ⟨c, c', rest, rest', hrest, hrest', hsame, -⟩
  · rw [hrest, hrest']
  · rw [hrest, hrest']
    exact hsame.eq_of_blind hok

theorem isAtWordBoundary_eq (h : place.Respelled place') :
    place.isAtWordBoundary = place'.isAtWordBoundary := by
  have hword : isWordChar '\n' = isWordChar '\r' := by decide +kernel
  rw [isAtWordBoundary, isAtWordBoundary, h.before_any_eq hword, h.precedes_eq hword]

theorem isAtEnd_eq (h : place.Respelled place') : place.isAtEnd = place'.isAtEnd := by
  unfold isAtEnd
  rcases h.rest.step with ⟨hrest, hrest'⟩ | ⟨c, c', rest, rest', hrest, hrest', -, -⟩
  · rw [hrest, hrest']
  · rw [hrest, hrest']
    rfl

/-- The places past the next characters stand for each other too. -/
theorem past (h : place.Respelled place') {c c' : Char} {rest rest' : List Char}
    (hsame : SameBreak c c') (hrest : Respells rest rest') :
    (place.past c rest).Respelled (place'.past c' rest') :=
  ⟨.some hsame, by rw [Cursor.past, Cursor.past, h.offset_eq, hsame.utf8Size_eq], hrest⟩

/-- The pieces between places of both texts are the same if there is no carriage return. -/
theorem eq_of_reads (hstart : place.Respelled place') (hstop : stop.Respelled stop')
    {piece piece' : List Char} (hreads : place.Reads piece stop)
    (hreads' : place'.Reads piece' stop') (hplain : '\r' ∉ piece') : piece = piece' := by
  refine hstart.rest.eq_of_byteSize_eq hreads.rest_eq hreads'.rest_eq ?_ hplain
  have hoffset := hreads.offset_eq
  rw [hstop.offset_eq, hreads'.offset_eq, hstart.offset_eq] at hoffset
  exact (Nat.add_left_cancel hoffset).symm

theorem forall₂_placesFrom {text text' : List Char} (h : Respells text text')
    {before before' : Option Char} (hbefore : Option.Rel SameBreak before before') (offset : Nat) :
    List.Forall₂ Respelled (placesFrom before offset text) (placesFrom before' offset text') := by
  induction text generalizing text' before before' offset with
  | nil =>
      rcases h.step with ⟨-, rfl⟩ | ⟨c, c', rest, rest', hnil, -⟩
      · exact .cons ⟨hbefore, rfl, .nil⟩ .nil
      · cases hnil
  | cons c rest ih =>
      rcases h.step with ⟨hnil, -⟩ | ⟨d, d', more, more', hcons, rfl, hsame, hrest⟩
      · cases hnil
      · obtain ⟨rfl, rfl⟩ := List.cons.inj hcons
        rw [placesFrom, placesFrom, hsame.utf8Size_eq]
        exact .cons ⟨hbefore, rfl, h⟩ (ih hrest (.some hsame) _)

end Respelled

end Cursor

end LayerLint.Text

namespace LayerLint.Pattern

open Text (Cursor Respells SameBreak isBreak)
open Text.Cursor (Respelled)

/-! ## Outcomes -/

/-- Outcomes at places that stand for each other are related. -/
def SameAt {α : Type} (related : α → α → Prop) (outcome outcome' : Cursor → Option α) : Prop :=
  ∀ ⦃place place'⦄, Respelled place place' → Option.Rel related (outcome place) (outcome' place')

namespace SameAt

variable {α : Type} {related : α → α → Prop} {outcome outcome' : Cursor → Option α}
variable {ok : Char → Bool} {settle : Cursor → Option α → Option α → Option α}

theorem pastAt (h : SameAt related outcome outcome') (hok : ok '\n' = ok '\r') :
    SameAt related (Outcomes.pastAt ok outcome) (Outcomes.pastAt ok outcome') := by
  intro place place' hplace
  unfold Outcomes.pastAt
  rcases hplace.rest.step with ⟨hrest, hrest'⟩ | ⟨c, c', rest, rest', hrest, hrest', hsame, hmore⟩
  · rw [hrest, hrest']
    exact .none
  · rw [hrest, hrest']
    dsimp only
    rw [hsame.eq_of_blind hok]
    split
    · exact h (hplace.past hsame hmore)
    · exact .none

theorem sweepAt (hsettle : LooksAhead ok settle) (h : SameAt related outcome outcome')
    (hok : ok '\n' = ok '\r') :
    SameAt related (Outcomes.sweepAt settle outcome) (Outcomes.sweepAt settle outcome') := by
  intro place place' hplace
  obtain ⟨before, offset, text⟩ := place
  obtain ⟨before', offset', text'⟩ := place'
  unfold Outcomes.sweepAt
  dsimp only
  induction text generalizing before before' offset offset' text' with
  | nil =>
      rcases hplace.rest.step with ⟨-, hrest⟩ | ⟨c, c', rest, rest', hnil, -⟩
      · obtain rfl : text' = [] := hrest
        exact hsettle.rel _ _ _ rfl (h hplace) .none
      · cases hnil
  | cons c rest ih =>
      rcases hplace.rest.step with ⟨hnil, -⟩ | ⟨d, d', more, more', hcons, hrest, hsame, hmore⟩
      · cases hnil
      · obtain ⟨rfl, rfl⟩ := List.cons.inj hcons
        obtain rfl : text' = d' :: more' := hrest
        exact hsettle.rel _ _ _ (hplace.precedes_eq hok) (h hplace)
          (ih _ _ _ _ _ (hplace.past hsame hmore))

theorem filter {ok : Cursor → Bool} (h : SameAt related outcome outcome')
    (hok : ∀ {place place'}, Respelled place place' → ok place = ok place') :
    SameAt related (fun place => (outcome place).filter fun _ => ok place)
      (fun place => (outcome' place).filter fun _ => ok place) := by
  intro place place' hplace
  beta_reduce
  rw [hok hplace]
  exact rel_filter _ (h hplace)

/-- A run that stops at line feeds may go through a carriage return, but it ends before the line
feed behind that. Where nothing is found in front of a line break, this is no difference. -/
theorem sweepAt_long (h : SameAt related outcome outcome') (hfeed : ok '\n' = false)
    (hnone : ∀ place : Cursor, place.precedes isBreak = true → outcome place = none)
    (hnone' : ∀ place : Cursor, place.precedes isBreak = true → outcome' place = none) :
    SameAt related
      (Outcomes.sweepAt (fun place here later =>
        if place.precedes ok then later.or here else here) outcome)
      (Outcomes.sweepAt (fun place here later =>
        if place.precedes ok then later.or here else here) outcome') := by
  have hsettle := looksAhead_long (α := α) ok
  intro place place' hplace
  obtain ⟨before, offset, text⟩ := place
  obtain ⟨before', offset', text'⟩ := place'
  unfold Outcomes.sweepAt
  dsimp only
  have hrest : Respells text text' := hplace.rest
  induction hrest generalizing before before' offset offset' with
  | nil =>
      rw [Outcomes.sweepFrom, Outcomes.sweepFrom]
      exact hsettle.rel _ ⟨before, offset, []⟩ ⟨before', offset', []⟩ rfl (h hplace) .none
  | @cons c rest rest' hmore ih =>
      rw [Outcomes.sweepFrom, Outcomes.sweepFrom]
      exact hsettle.rel _ ⟨before, offset, c :: rest⟩ ⟨before', offset', c :: rest'⟩ rfl (h hplace)
        (ih _ _ _ _ (hplace.past (.inl rfl) hmore))
  | @lineBreak rest rest' hmore ih =>
      have hstop {outcome : Cursor → Option α} {before : Option Char} {offset : Nat}
          {rest : List Char} (hnone : outcome ⟨before, offset, '\n' :: rest⟩ = none) :
          Outcomes.sweepFrom (fun place here later =>
            if place.precedes ok then later.or here else here) outcome before offset
              ('\n' :: rest) = none := by
        have hends : Cursor.precedes ok ⟨before, offset, '\n' :: rest⟩ = false := hfeed
        rw [Outcomes.sweepFrom, hends, if_neg Bool.false_ne_true, hnone]
      rw [hstop (hnone _ rfl), Outcomes.sweepFrom, hstop (hnone' _ rfl), hnone' _ rfl]
      split <;> exact .none

end SameAt

/-! ## Patterns -/

/-- From outcomes that are related a pattern makes outcomes that are related. -/
def Overlooks (pattern : Pattern) : Prop :=
  ∀ ⦃β : Type⦄ ⦃related : β → β → Prop⦄ ⦃outcome outcome' : Cursor → Option (Captures × β)⦄,
    SameAt (Alike Respelled related) outcome outcome' →
    SameAt (Alike Respelled related) (pattern.outcomeAt outcome) (pattern.outcomeAt outcome')

theorem SameAt.handEnd {β : Type} {related : β → β → Prop}
    {outcome outcome' : Cursor → Option (Captures × β)}
    (h : SameAt (Alike Respelled related) outcome outcome') :
    SameAt (Alike Respelled (Handed Respelled related)) (handEnd outcome) (handEnd outcome') :=
  fun _ _ hstop => rel_map (h hstop) fun halike => ⟨halike.1, hstop, halike.2⟩

/-- No class of the pattern tells a carriage return from a line feed. -/
def IsBlind : Pattern → Prop
  | empty | boundary | finish => True
  | one ok | long ok | short ok => ok '\n' = ok '\r'
  | andThen first second | orElse first second => first.IsBlind ∧ second.IsBlind
  | named _ body => body.IsBlind

namespace Overlooks

variable {first second body pattern : Pattern}

theorem andThen (hfirst : first.Overlooks) (hsecond : second.Overlooks) :
    (andThen first second).Overlooks := fun _ _ _ _ h => hfirst (hsecond h)

theorem orElse (hfirst : first.Overlooks) (hsecond : second.Overlooks) :
    (orElse first second).Overlooks :=
  fun _ _ _ _ h _ _ hplace => rel_or (hfirst h hplace) (hsecond h hplace)

theorem named (name : String) (hbody : body.Overlooks) : (named name body).Overlooks :=
  fun _ _ _ _ h _ _ hplace => rel_named hplace (hbody h.handEnd hplace)

theorem of_isBlind (h : pattern.IsBlind) : pattern.Overlooks := by
  induction pattern with
  | empty => exact fun _ _ _ _ hsame => hsame
  | one ok => exact fun _ _ _ _ hsame => hsame.pastAt h
  | long ok => exact fun _ _ _ _ hsame => hsame.sweepAt (looksAhead_long ok) h
  | short ok => exact fun _ _ _ _ hsame => hsame.sweepAt (looksAhead_short ok) h
  | boundary => exact fun _ _ _ _ hsame => hsame.filter (·.isAtWordBoundary_eq)
  | finish => exact fun _ _ _ _ hsame => hsame.filter (·.isAtEnd_eq)
  | andThen first second ihfirst ihsecond => exact (ihfirst h.1).andThen (ihsecond h.2)
  | orElse first second ihfirst ihsecond => exact (ihfirst h.1).orElse (ihsecond h.2)
  | named name body ih => exact (ih h).named name

theorem all {patterns : List Pattern} (h : ∀ pattern ∈ patterns, pattern.Overlooks) :
    (all patterns).Overlooks := by
  induction patterns with
  | nil => exact of_isBlind trivial
  | cons pattern rest ih =>
      obtain ⟨hpattern, hrest⟩ := List.forall_mem_cons.mp h
      exact hpattern.andThen (ih hrest)

end Overlooks

theorem isBlind_all {patterns : List Pattern} (h : ∀ pattern ∈ patterns, pattern.IsBlind) :
    (all patterns).IsBlind := by
  induction patterns with
  | nil => trivial
  | cons pattern rest ih =>
      obtain ⟨hpattern, hrest⟩ := List.forall_mem_cons.mp h
      exact ⟨hpattern, ih hrest⟩

theorem isBlind_word {text : String} (h : text.toList.all (!isBreak ·) = true) :
    (word text).IsBlind := by
  apply isBlind_all
  intro pattern hpattern
  obtain ⟨c, hc, rfl⟩ := List.mem_map.mp hpattern
  have hplain := List.all_eq_true.mp h c hc
  rw [Bool.not_eq_true', isBreak, Bool.or_eq_false_iff, beq_eq_false_iff_ne,
    beq_eq_false_iff_ne] at hplain
  exact (beq_false_of_ne hplain.1.symm).trans (beq_false_of_ne hplain.2.symm).symm

theorem isBlind_blanks : blanks.IsBlind := by
  change Text.isBlank '\n' = Text.isBlank '\r'
  decide

/-! ## Matches -/

/-- A piece without blanks is the same in both matches. -/
theorem MatchAlike.text_eq_of_respelled {pattern : Pattern} {found found' : Match} {name : String}
    (h : MatchAlike Respelled Respelled pattern found found')
    (hsolid : pattern.Remembers name Solid) : found.text name = found'.text name := by
  unfold Match.text
  rcases none_or_some_of_rel (h.rel_solid hsolid) with
    ⟨hnone, hnone'⟩ | ⟨span, span', hspan, hspan', halike, piece, c, piece', hreads, hreads', hplain⟩
  · rw [hnone, hnone']
  · have hreturn : '\r' ∉ c :: piece' := fun hmem => by cases hplain '\r' hmem
    rw [hspan, hspan', Option.map_some, Option.map_some, Text.Span.text, Text.Span.text,
      Text.Span.chars_eq_of_reads hreads, Text.Span.chars_eq_of_reads hreads',
      halike.start.eq_of_reads halike.stop hreads hreads' hreturn]

namespace Overlooks

variable {pattern : Pattern} {text text' : List Char} {place place' : Cursor}

theorem rel_matchAt? (h : pattern.Overlooks) (hplace : Respelled place place') :
    Option.Rel (MatchAlike Respelled Respelled pattern) (pattern.matchAt? place)
      (pattern.matchAt? place') := by
  have hstop : SameAt (Alike Respelled Respelled) (fun stop => some ([], stop))
      (fun stop => some ([], stop)) := fun _ _ hstop => .some ⟨.nil, hstop⟩
  exact rel_matchAt?_of_rel hplace (h hstop hplace)

/-- The same matches are found with both spellings. -/
theorem forall₂_findAll (h : pattern.Overlooks) (htext : Respells text text') :
    List.Forall₂ (MatchAlike Respelled Respelled pattern) (pattern.findAll text)
      (pattern.findAll text') := by
  have hfree (offset : Nat) : FreeAlike Respelled offset offset := fun hplace => by
    rw [hplace.offset_eq]
  have hcandidates : List.Forall₂ (CandidateAlike Respelled (MatchAlike Respelled Respelled pattern))
      ((Cursor.places text).map fun place => (place, pattern.matchAt? place))
      ((Cursor.places text').map fun place => (place, pattern.matchAt? place)) := by
    rw [List.forall₂_map_left_iff, List.forall₂_map_right_iff]
    exact (Respelled.forall₂_placesFrom htext .none 0).imp fun _ _ hplace =>
      ⟨hplace, h.rel_matchAt? hplace⟩
  rw [findAll, findAll, candidates_eq_map, candidates_eq_map]
  apply forall₂_pick _ (hfree 0) hcandidates
  intro found found' halike
  rw [halike.stop.offset_eq]
  exact hfree _

end Overlooks

end LayerLint.Pattern
