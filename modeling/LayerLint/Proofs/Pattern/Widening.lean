import LayerLint.Proofs.Pattern.Alike
import LayerLint.Proofs.Text.Widening

/-! # Matching in a widened text

Matching at a place depends on the outcomes of what comes after the pattern. So does the relation
between matching in a text and in the same text widened by blanks: given how the outcomes after a
pattern are related, the outcomes of the pattern itself are related in turn. What differs from one
pattern to another is what is known of the outcomes in the gap.
-/

namespace LayerLint.Pattern

open Text (Cursor Span Widening)

/-- What is known of the outcome at a place in the gap, given the one at the seam. -/
inductive Level where
  /-- There is none. -/
  | silent
  /-- It is the one at the seam. -/
  | exact
  /-- It is the one at the seam, if there is one. -/
  | tolerant
  /-- There is one only if there is one at the seam. -/
  | loose
  /-- Nothing. -/
  | free
  deriving DecidableEq

namespace Level

variable {α : Type} {related : α → α → Prop} {seam gap : Option α}

/-- The outcomes at the seam and at a place in the gap are as the level says. -/
def Allows (related : α → α → Prop) (seam gap : Option α) : Level → Prop
  | silent => gap = none
  | exact => Option.Rel related seam gap
  | tolerant => gap = none ∨ Option.Rel related seam gap
  | loose => seam = none → gap = none
  | free => True

/-- Whether a level says no more than another. -/
def covers : Level → Level → Bool
  | free, _ => true
  | loose, level => level != free
  | tolerant, level => level == tolerant || level == exact || level == silent
  | exact, level => level == exact
  | silent, level => level == silent

theorem Allows.of_covers {level level' : Level} (hcovers : level'.covers level = true)
    (h : level.Allows related seam gap) : level'.Allows related seam gap := by
  cases level' with
  | free => trivial
  | silent | exact =>
      obtain rfl := eq_of_beq hcovers
      exact h
  | tolerant =>
      cases level with
      | tolerant => exact h
      | exact => exact .inr h
      | silent => exact .inl h
      | loose | free => cases hcovers
  | loose =>
      rintro rfl
      cases level with
      | loose => exact h rfl
      | tolerant => exact h.elim id (eq_none_iff_of_rel · |>.mp rfl)
      | exact => exact (eq_none_iff_of_rel h).mp rfl
      | silent => exact h
      | free => cases hcovers

end Level

section

variable {α : Type} (w : Widening) (level : Level) (related : α → α → Prop)

/-- The outcomes for the wide text follow those for the narrow one. -/
structure Follows (outcome outcome' : Cursor → Option α) : Prop where
  twin : ∀ {place place'}, w.Twin place place' →
    Option.Rel related (outcome place) (outcome' place')
  gap : ∀ {place}, w.InGap place → level.Allows related (outcome w.seam) (outcome' place)

end

theorem pastAt_eq_none_of_inGap {α : Type} {w : Widening} {ok : Char → Bool}
    {outcome : Cursor → Option α} {place : Cursor}
    (hok : ∀ c, Text.isBlank c = true → ok c = false) (hgap : w.InGap place) :
    Outcomes.pastAt ok outcome place = none :=
  Outcomes.pastAt_eq_none (hgap.precedes_eq_false hok)

namespace Follows

variable {α : Type} {w : Widening} {level : Level} {related : α → α → Prop}
variable {outcome outcome' : Cursor → Option α} {place place' : Cursor}

theorem of_covers {level' : Level} (h : Follows w level related outcome outcome')
    (hcovers : level'.covers level = true) : Follows w level' related outcome outcome' :=
  ⟨h.twin, fun hgap => (h.gap hgap).of_covers hcovers⟩

/-- Behind the last character before the seam the outcomes are related too, if those in the gap
are. -/
theorem rel_at_seam (h : Follows w .exact related outcome outcome') :
    Option.Rel related (outcome w.seam)
      (outcome' (Cursor.between w.before (w.gap ++ w.after))) := by
  rcases w.near_seam with htwin | ⟨-, hgap⟩
  · exact h.twin htwin
  · exact h.gap hgap

/-! ## One character -/

theorem pastAt_twin (ok : Char → Bool) (h : Follows w .free related outcome outcome')
    (hseam : (∀ c, Text.isBlank c = true → ok c = false) ∨
      Follows w .exact related outcome outcome') (htwin : w.Twin place place') :
    Option.Rel related (Outcomes.pastAt ok outcome place) (Outcomes.pastAt ok outcome' place') := by
  unfold Outcomes.pastAt
  rcases htwin.step with ⟨hrest, hrest'⟩ | ⟨c, rest, rest', hrest, hrest', hnext⟩
  · rw [hrest, hrest']
    exact .none
  · rw [hrest, hrest']
    dsimp only
    split
    next hok =>
      rcases hnext with hnext | ⟨hblank, hnext, hnext'⟩
      · exact h.twin hnext
      · rcases hseam with hsolid | hexact
        · rw [hsolid c hblank] at hok
          cases hok
        · rw [hnext, hnext']
          exact hexact.rel_at_seam
    next => exact .none

theorem pastAt_of_solid {ok : Char → Bool} (hok : ∀ c, Text.isBlank c = true → ok c = false)
    (h : Follows w .free related outcome outcome') :
    Follows w .silent related (Outcomes.pastAt ok outcome) (Outcomes.pastAt ok outcome') where
  twin := h.pastAt_twin ok (.inl hok)
  gap := pastAt_eq_none_of_inGap hok

theorem pastAt (ok : Char → Bool) (h : Follows w .exact related outcome outcome') :
    Follows w .free related (Outcomes.pastAt ok outcome) (Outcomes.pastAt ok outcome') where
  twin := (h.of_covers rfl).pastAt_twin ok (.inr h)
  gap _ := trivial

end Follows

theorem Follows.filter {α : Type} {w : Widening} {related : α → α → Prop}
    {outcome outcome' : Cursor → Option α} (ok : Cursor → Bool)
    (htwin : ∀ {place place'}, w.Twin place place' → ok place = ok place')
    (hgap : ∀ {place}, w.InGap place → ok place = false)
    (h : Follows w .free related outcome outcome') :
    Follows w .silent related (fun place => (outcome place).filter fun _ => ok place)
      (fun place => (outcome' place).filter fun _ => ok place) where
  twin := by
    intro place place' hplace
    rw [htwin hplace]
    exact rel_filter _ (h.twin hplace)
  gap := by
    intro place hplace
    change (outcome' place).filter _ = none
    rw [hgap hplace]
    exact Option.filter_eq_none_iff.mpr fun _ _ => Bool.false_ne_true

/-- Outcomes that are changed in view of their places stay related. -/
theorem Follows.map {α α' : Type} {w : Widening} {level : Level} {related : α → α → Prop}
    {related' : α' → α' → Prop} {outcome outcome' : Cursor → Option α}
    (h : Follows w level related outcome outcome') (change : Cursor → α → α')
    (hchange : ∀ {place place'}, w.Near place place' → ∀ {one two}, related one two →
      related' (change place one) (change place' two)) :
    Follows w level related' (fun place => (outcome place).map (change place))
      (fun place => (outcome' place).map (change place)) where
  twin htwin := rel_map (h.twin htwin) (hchange (.inl htwin))
  gap := by
    intro place hplace
    have hnear {one two : α} (h : related one two) :
        related' (change w.seam one) (change place two) := hchange (.inr ⟨rfl, hplace⟩) h
    have hgap := h.gap hplace
    cases level with
    | silent => exact Option.map_eq_none_iff.mpr hgap
    | exact => exact rel_map hgap hnear
    | tolerant => exact hgap.imp Option.map_eq_none_iff.mpr (rel_map · hnear)
    | loose => exact fun hnone => Option.map_eq_none_iff.mpr (hgap (Option.map_eq_none_iff.mp hnone))
    | free => trivial

/-! ## Runs of characters -/

section

open Outcomes (sweepAt)
open Text.Cursor (between)

variable {α : Type} {w : Widening} {ok : Char → Bool} {related : α → α → Prop}
variable {settle : Cursor → Option α → Option α → Option α}
variable {outcome outcome' : Cursor → Option α}

theorem sweepAt_nil (before : List Char) :
    sweepAt settle outcome (between before []) =
      settle (between before []) (outcome (between before [])) none := rfl

theorem sweepAt_cons (before : List Char) (c : Char) (rest : List Char) :
    sweepAt settle outcome (between before (c :: rest)) =
      settle (between before (c :: rest)) (outcome (between before (c :: rest)))
        (sweepAt settle outcome (between (before ++ [c]) rest)) := by
  rw [← Cursor.past_between]
  rfl

theorem LooksAhead.stops_between (hsettle : LooksAhead ok settle) {c : Char} (hok : ok c = false)
    (before rest : List Char) (here later : Option α) :
    settle (between before (c :: rest)) here later = here :=
  hsettle.stops (between before (c :: rest)) here later hok

theorem Follows.rel_sweepAt_behind (hsettle : LooksAhead ok settle)
    (h : Follows w .free related outcome outcome') {first second : List Char}
    (hsplit : w.after = first ++ second) :
    Option.Rel related (sweepAt settle outcome (between (w.before ++ first) second))
      (sweepAt settle outcome' (between (w.before ++ (w.gap ++ first)) second)) := by
  induction second generalizing first with
  | nil =>
      rw [sweepAt_nil, sweepAt_nil]
      exact hsettle.rel _ _ _ rfl (h.twin (.behind hsplit)) .none
  | cons c second ih =>
      rw [sweepAt_cons, sweepAt_cons, List.append_assoc, List.append_assoc, List.append_assoc]
      exact hsettle.rel _ _ _ rfl (h.twin (.behind hsplit))
        (ih (by rw [hsplit, List.append_assoc]; rfl))

/-- In front of the seam a run either stops before it, or it goes on as it does from the seam. -/
theorem Follows.rel_sweepAt_ahead (hsettle : LooksAhead ok settle)
    (h : Follows w .free related outcome outcome') {first second : List Char} {c : Char}
    (hend : (∃ d ∈ c :: second, ok d = false) ∨ Option.Rel related
      (sweepAt settle outcome w.seam)
      (sweepAt settle outcome' (between w.before (w.gap ++ w.after))))
    (hsplit : w.before = first ++ c :: second) :
    Option.Rel related (sweepAt settle outcome (between first (c :: (second ++ w.after))))
      (sweepAt settle outcome' (between first (c :: (second ++ (w.gap ++ w.after))))) := by
  induction second generalizing first c with
  | nil =>
      rw [sweepAt_cons, sweepAt_cons, List.nil_append, List.nil_append, ← hsplit]
      rcases hend with ⟨d, hd, hok⟩ | hend
      · obtain rfl := List.mem_singleton.mp hd
        rw [hsettle.stops_between hok, hsettle.stops_between hok]
        exact h.twin (.ahead hsplit)
      · exact hsettle.rel _ _ _ rfl (h.twin (.ahead hsplit)) hend
  | cons d second ih =>
      rw [sweepAt_cons, sweepAt_cons]
      by_cases hok : ok c = false
      · rw [hsettle.stops_between hok, hsettle.stops_between hok]
        exact h.twin (.ahead hsplit)
      · refine hsettle.rel _ _ _ rfl (h.twin (.ahead hsplit))
          (ih (hend.imp_left ?_) (by rw [hsplit, List.append_assoc]; rfl))
        rintro ⟨e, he, hstop⟩
        rcases List.mem_cons.mp he with rfl | he
        · exact (hok hstop).elim
        · exact ⟨e, he, hstop⟩

/-- A run of characters that are not blank never meets the gap. -/
theorem Follows.sweepAt_of_solid (hsettle : LooksAhead ok settle)
    (hok : ∀ c, Text.isBlank c = true → ok c = false)
    (h : Follows w .free related outcome outcome') :
    Follows w .free related (sweepAt settle outcome) (sweepAt settle outcome') where
  twin := by
    intro place place' htwin
    cases htwin with
    | @ahead first second c hsplit =>
        refine h.rel_sweepAt_ahead hsettle (.inl ?_) hsplit
        refine ⟨(c :: second).getLast (List.cons_ne_nil _ _), List.getLast_mem _, hok _ ?_⟩
        apply w.before_blank
        rw [hsplit, List.getLast?_append, List.getLast?_eq_getLast_of_ne_nil, Option.some_or]
    | behind hsplit => exact h.rel_sweepAt_behind hsettle hsplit
  gap _ := trivial

/-- A run that goes through the gap is at each of its places as it is at the seam. -/
theorem Follows.sweepAt_exact (hsettle : LooksAhead ok settle)
    (h : Follows w .free related outcome outcome')
    (hgap : ∀ {first second c}, w.gap = first ++ c :: second →
      Option.Rel related (sweepAt settle outcome w.seam)
        (sweepAt settle outcome' (between (w.before ++ (first ++ [c])) (second ++ w.after))) →
      Option.Rel related (sweepAt settle outcome w.seam)
        (sweepAt settle outcome' (between (w.before ++ first) (c :: (second ++ w.after))))) :
    Follows w .exact related (sweepAt settle outcome) (sweepAt settle outcome') := by
  have hthrough {first second : List Char} (hsplit : w.gap = first ++ second) :
      Option.Rel related (sweepAt settle outcome w.seam)
        (sweepAt settle outcome' (between (w.before ++ first) (second ++ w.after))) := by
    induction second generalizing first with
    | nil =>
        have hbehind := h.rel_sweepAt_behind hsettle (List.nil_append w.after).symm
        rw [List.append_nil, List.append_nil] at hbehind
        rw [hsplit, List.append_nil] at hbehind
        exact hbehind
    | cons c second ih =>
        exact hgap hsplit (ih (by rw [hsplit, List.append_assoc]; rfl))
  constructor
  · intro place place' htwin
    cases htwin with
    | ahead hsplit =>
        have hseam := hthrough (List.nil_append w.gap).symm
        rw [List.append_nil] at hseam
        exact h.rel_sweepAt_ahead hsettle (.inr hseam) hsplit
    | behind hsplit => exact h.rel_sweepAt_behind hsettle hsplit
  · intro place hplace
    cases hplace with
    | mk hsplit => exact hthrough hsplit

end

/-! ## Patterns -/

section

variable (w : Widening)

/-- From outcomes at one level a pattern makes outcomes at another. -/
def Keeps (pattern : Pattern) (level level' : Level) : Prop :=
  ∀ (β : Type) (related : β → β → Prop) (outcome outcome' : Cursor → Option (Captures × β)),
    Follows w level (Alike w.Near related) outcome outcome' →
    Follows w level' (Alike w.Near related) (pattern.outcomeAt outcome) (pattern.outcomeAt outcome')

end

theorem Follows.handEnd {β : Type} {w : Widening} {level : Level} {related : β → β → Prop}
    {outcome outcome' : Cursor → Option (Captures × β)}
    (h : Follows w level (Alike w.Near related) outcome outcome') :
    Follows w level (Alike w.Near (Handed w.Near related)) (handEnd outcome) (handEnd outcome') :=
  h.map (fun stop found => (found.1, stop, found.2)) fun hnear _ _ halike =>
    ⟨halike.1, hnear, halike.2⟩

namespace Keeps

variable {w : Widening} {first second pattern : Pattern} {level level' middle middle' : Level}
variable {ok : Char → Bool}

theorem of_covers (h : Keeps w pattern middle middle') (hlevel : middle.covers level = true)
    (hlevel' : level'.covers middle' = true) : Keeps w pattern level level' :=
  fun β related outcome outcome' hfollows =>
    (h β related outcome outcome' (hfollows.of_covers hlevel)).of_covers hlevel'

theorem empty (hcovers : level'.covers level = true) : Keeps w .empty level level' :=
  fun _ _ _ _ h => h.of_covers hcovers

theorem last (h : Keeps w pattern level level') : Keeps w (.andThen pattern .empty) level level' :=
  h

theorem one_of_solid (hok : ∀ c, Text.isBlank c = true → ok c = false) :
    Keeps w (.one ok) .free .silent := fun _ _ _ _ h => h.pastAt_of_solid hok

theorem one (ok : Char → Bool) : Keeps w (.one ok) .exact .free := fun _ _ _ _ h => h.pastAt ok

theorem long_of_solid (hok : ∀ c, Text.isBlank c = true → ok c = false) :
    Keeps w (.long ok) .free .free :=
  fun _ _ _ _ h => h.sweepAt_of_solid (looksAhead_long ok) hok

theorem precedes_of_gap_eq (hok : ∀ c, Text.isBlank c = true → ok c = true)
    {first second : List Char} {c : Char} (hsplit : w.gap = first ++ c :: second) :
    (Cursor.between (w.before ++ first) (c :: (second ++ w.after))).precedes ok = true :=
  hok c (Widening.isBlank_of_gap_eq hsplit)

theorem long_of_open (hok : ∀ c, Text.isBlank c = true → ok c = true) :
    Keeps w (.long ok) .loose .exact := by
  intro β related outcome outcome' h
  apply (h.of_covers rfl).sweepAt_exact (looksAhead_long ok)
  intro first second c hsplit hlater
  have hgap := h.gap (.mk hsplit)
  rw [sweepAt_cons, List.append_assoc, if_pos (precedes_of_gap_eq hok hsplit)]
  rcases none_or_some_of_rel hlater with ⟨hnone, hnone'⟩ | ⟨one, two, hone, htwo, halike⟩
  · -- a run that finds nothing from the seam on finds nothing at the seam
    have hseam : outcome w.seam = none := by
      rw [← Option.not_isSome_iff_eq_none]
      intro hsome
      have hrun := Outcomes.isSome_sweepAt (Outcomes.goesOn_long ok) (.refl w.seam)
        (List.forall_mem_nil _) hsome
      rw [hnone] at hrun
      cases hrun
    rw [hnone, hnone', hgap hseam]
    exact .none
  · rw [hone, htwo]
    exact .some halike

theorem short_of_open (hok : ∀ c, Text.isBlank c = true → ok c = true) :
    Keeps w (.short ok) .tolerant .exact := by
  intro β related outcome outcome' h
  apply (h.of_covers rfl).sweepAt_exact (looksAhead_short ok)
  intro first second c hsplit hlater
  rw [sweepAt_cons, List.append_assoc, if_pos (precedes_of_gap_eq hok hsplit)]
  rcases h.gap (.mk hsplit) with hnone | hgap
  · rw [hnone]
    exact hlater
  · rcases none_or_some_of_rel hgap with ⟨-, hnone⟩ | ⟨one, two, hone, htwo, halike⟩
    · rw [hnone]
      exact hlater
    · have hshort : Outcomes.sweepAt
          (fun place here later => here.or (if place.precedes ok then later else none))
          outcome w.seam = some one := by
        unfold Widening.seam at hone ⊢
        cases hafter : w.after with
        | nil => rw [hafter] at hone; rw [sweepAt_nil, hone]; rfl
        | cons c rest => rw [hafter] at hone; rw [sweepAt_cons, hone]; rfl
      rw [hshort, htwo]
      exact .some halike

theorem boundary : Keeps w .boundary .free .silent := fun _ _ _ _ h =>
  h.filter Cursor.isAtWordBoundary (·.isAtWordBoundary_eq) (·.isAtWordBoundary_eq_false)

theorem finish : Keeps w .finish .free .silent :=
  fun _ _ _ _ h => h.filter Cursor.isAtEnd (·.isAtEnd_eq) (·.isAtEnd_eq_false)

theorem andThen (hfirst : Keeps w first middle level') (hsecond : Keeps w second level middle')
    (hcovers : middle.covers middle' = true) : Keeps w (.andThen first second) level level' :=
  fun β related outcome outcome' h =>
    hfirst β related _ _ ((hsecond β related outcome outcome' h).of_covers hcovers)

/-- The first pattern that has an outcome is the same in both texts. -/
theorem orElse (hlevel : level' = .silent ∨ level' = .loose ∨ level' = .free)
    (hfirst : Keeps w first level level') (hsecond : Keeps w second level level') :
    Keeps w (.orElse first second) level level' := by
  intro β related outcome outcome' h
  have hone := hfirst β related outcome outcome' h
  have htwo := hsecond β related outcome outcome' h
  constructor
  · intro place place' htwin
    exact rel_or (hone.twin htwin) (htwo.twin htwin)
  · intro place hplace
    have hgap := hone.gap hplace
    have hgap' := htwo.gap hplace
    rcases hlevel with rfl | rfl | rfl
    · exact Option.or_eq_none_iff.mpr ⟨hgap, hgap'⟩
    · intro hnone
      obtain ⟨hnone, hnone'⟩ := Option.or_eq_none_iff.mp hnone
      exact Option.or_eq_none_iff.mpr ⟨hgap hnone, hgap' hnone'⟩
    · trivial

theorem named (name : String) {body : Pattern} (h : Keeps w body level level') :
    Keeps w (.named name body) level level' := by
  intro β related outcome outcome' hfollows
  refine (h _ _ _ _ hfollows.handEnd).map
    (fun start found => ((name, ⟨start, found.2.1⟩) :: found.1, found.2.2)) ?_
  intro start start' hstart one two halike
  exact ⟨.cons ⟨rfl, hstart, halike.2.1⟩ halike.1, halike.2.2⟩

/-! ## Composed patterns -/

theorem all_of_forall {patterns : List Pattern} (hne : patterns ≠ [])
    (h : ∀ pattern ∈ patterns, Keeps w pattern .free .silent) :
    Keeps w (all patterns) .free .silent := by
  induction patterns with
  | nil => exact (hne rfl).elim
  | cons first rest ih =>
      have hfirst := h first List.mem_cons_self
      cases rest with
      | nil => exact hfirst.last
      | cons second rest =>
          have hrest := ih (List.cons_ne_nil _ _) fun pattern hpattern =>
            h pattern (List.mem_cons_of_mem _ hpattern)
          exact hfirst.andThen hrest rfl

theorem word {text : String} (hne : text.toList ≠ [])
    (hsolid : text.toList.all (!Text.isBlank ·) = true) : Keeps w (word text) .free .silent := by
  apply all_of_forall (mt List.map_eq_nil_iff.mp hne)
  intro pattern hpattern
  obtain ⟨c, hc, rfl⟩ := List.mem_map.mp hpattern
  apply one_of_solid
  intro d hd
  rw [beq_eq_false_iff_ne]
  rintro rfl
  have hnot := List.all_eq_true.mp hsolid d hc
  rw [hd] at hnot
  cases hnot

theorem blanks : Keeps w blanks .loose .exact := long_of_open fun _ h => h

theorem someBlanks : Keeps w someBlanks .loose .free := (one _).andThen blanks rfl

theorem maybe (hlevel : level' = .silent ∨ level' = .loose ∨ level' = .free)
    (hcovers : level'.covers level = true) (h : Keeps w pattern level level') :
    Keeps w (maybe pattern) level level' :=
  orElse hlevel h (empty hcovers)

end Keeps

end LayerLint.Pattern
