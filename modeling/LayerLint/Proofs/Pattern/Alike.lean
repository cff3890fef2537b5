import LayerLint.Proofs.Pattern.Search
import Mathlib.Data.List.Forall2

/-! # Matching in two texts

Two texts are searched side by side: places of one stand for places of the other, and so do the
outcomes there, the pieces that are remembered, and in the end the matches. What this says of the
texts depends on the relation between the places; what is told here holds for any.
-/

namespace LayerLint.Pattern

open Text (Cursor Span)

/-! ## Outcomes -/

theorem none_or_some_of_rel {α : Type} {related : α → α → Prop} {first second : Option α}
    (h : Option.Rel related first second) : (first = none ∧ second = none) ∨
      ∃ one two, first = some one ∧ second = some two ∧ related one two := by
  cases h with
  | none => exact .inl ⟨rfl, rfl⟩
  | some h => exact .inr ⟨_, _, rfl, rfl, h⟩

theorem eq_none_iff_of_rel {α : Type} {related : α → α → Prop} {first second : Option α}
    (h : Option.Rel related first second) : first = none ↔ second = none := by
  rcases none_or_some_of_rel h with ⟨rfl, rfl⟩ | ⟨one, two, rfl, rfl, -⟩ <;> simp

theorem rel_map {α α' : Type} {related : α → α → Prop} {related' : α' → α' → Prop}
    {first second : Option α} {change change' : α → α'} (h : Option.Rel related first second)
    (hchange : ∀ {one two}, related one two → related' (change one) (change' two)) :
    Option.Rel related' (first.map change) (second.map change') := by
  cases h with
  | none => exact .none
  | some h => exact .some (hchange h)

theorem rel_or {α : Type} {related : α → α → Prop} {first first' second second' : Option α}
    (hfirst : Option.Rel related first first') (hsecond : Option.Rel related second second') :
    Option.Rel related (first.or second) (first'.or second') := by
  cases hfirst with
  | none => exact hsecond
  | some h => exact .some h

theorem rel_filter {α : Type} {related : α → α → Prop} {first second : Option α} (ok : Bool)
    (h : Option.Rel related first second) :
    Option.Rel related (first.filter fun _ => ok) (second.filter fun _ => ok) := by
  cases h with
  | none => exact .none
  | some h =>
      cases ok with
      | true => exact .some h
      | false => exact .none

/-- A sweep that looks at nothing but whether a character of a class follows. -/
structure LooksAhead {α : Type} (ok : Char → Bool)
    (settle : Cursor → Option α → Option α → Option α) : Prop where
  stops : ∀ place here later, place.precedes ok = false → settle place here later = here
  rel : ∀ (related : α → α → Prop) (place place' : Cursor) {here here' later later' : Option α},
    place.precedes ok = place'.precedes ok → Option.Rel related here here' →
    Option.Rel related later later' →
    Option.Rel related (settle place here later) (settle place' here' later')

theorem looksAhead_long {α : Type} (ok : Char → Bool) : LooksAhead (α := α) ok
    fun place here later => if place.precedes ok then later.or here else here where
  stops place here later h := by simp [h]
  rel related place place' here here' later later' hnext hhere hlater := by
    rw [hnext]
    split
    · exact rel_or hlater hhere
    · exact hhere

theorem looksAhead_short {α : Type} (ok : Char → Bool) : LooksAhead (α := α) ok
    fun place here later => here.or (if place.precedes ok then later else none) where
  stops place here later h := by simp [h]
  rel related place place' here here' later later' hnext hhere hlater := by
    rw [hnext]
    split
    · exact rel_or hhere hlater
    · exact rel_or hhere .none

/-! ## Pieces -/

section

variable (near : Cursor → Cursor → Prop)

/-- Pieces between places that stand for each other. -/
structure SpanAlike (first second : Span) : Prop where
  start : near first.start second.start
  stop : near first.stop second.stop

/-- Pieces remembered under the same names. -/
def CapturesAlike : Captures → Captures → Prop :=
  List.Forall₂ fun first second => first.1 = second.1 ∧ SpanAlike near first.2 second.2

/-- Outcomes whose pieces are alike. -/
def Alike {β : Type} (related : β → β → Prop) (first second : Captures × β) : Prop :=
  CapturesAlike near first.1 second.1 ∧ related first.2 second.2

/-- Outcomes that are handed on together with the place behind the pattern. -/
def Handed {β : Type} (related : β → β → Prop) (first second : Cursor × β) : Prop :=
  near first.1 second.1 ∧ related first.2 second.2

end

/-- The outcomes, handed on together with their places. -/
def handEnd {β : Type} (outcome : Cursor → Option (Captures × β)) (stop : Cursor) :
    Option (Captures × (Cursor × β)) :=
  (outcome stop).map fun found => (found.1, stop, found.2)

variable {near : Cursor → Cursor → Prop}

theorem rel_named {name : String} {body : Pattern} {β : Type} {related : β → β → Prop}
    {outcome outcome' : Cursor → Option (Captures × β)} {start start' : Cursor}
    (hstart : near start start') (h : Option.Rel (Alike near (Handed near related))
      (body.outcomeAt (handEnd outcome) start) (body.outcomeAt (handEnd outcome') start')) :
    Option.Rel (Alike near related) ((Pattern.named name body).outcomeAt outcome start)
      ((Pattern.named name body).outcomeAt outcome' start') :=
  rel_map h fun halike => ⟨.cons ⟨rfl, hstart, halike.2.1⟩ halike.1, halike.2.2⟩

theorem CapturesAlike.rel_lookup {captures captures' : Captures}
    (h : CapturesAlike near captures captures') (name : String) :
    Option.Rel (SpanAlike near) (captures.lookup name) (captures'.lookup name) := by
  induction h with
  | nil => exact .none
  | @cons first second rest rest' hspan _ ih =>
      obtain ⟨name', span⟩ := first
      obtain ⟨name'', span'⟩ := second
      obtain rfl : name' = name'' := hspan.1
      rw [List.lookup_cons, List.lookup_cons]
      split
      · exact .some hspan.2
      · exact ih

/-! ## Matches -/

/-- Matches in both texts that stand for each other. -/
structure MatchAlike (twin near : Cursor → Cursor → Prop) (pattern : Pattern)
    (found found' : Match) : Prop where
  start : twin found.whole.start found'.whole.start
  stop : near found.whole.stop found'.whole.stop
  captures : CapturesAlike near found.captures found'.captures
  accepts : pattern.Accepts found.whole.start found.captures found.whole.stop
  accepts' : pattern.Accepts found'.whole.start found'.captures found'.whole.stop

section

variable {twin : Cursor → Cursor → Prop} {pattern : Pattern}

theorem MatchAlike.rel_get? {found found' : Match} (h : MatchAlike twin near pattern found found')
    (name : String) : Option.Rel (SpanAlike near) (found.get? name) (found'.get? name) :=
  h.captures.rel_lookup name

/-- Pieces that are remembered of both matches, none of them blank. -/
theorem MatchAlike.rel_solid {found found' : Match} {name : String}
    (h : MatchAlike twin near pattern found found') (hsolid : pattern.Remembers name Solid) :
    Option.Rel (fun span span' => SpanAlike near span span' ∧ ∃ piece c piece',
        span.start.Reads piece span.stop ∧ span'.start.Reads (c :: piece') span'.stop ∧
        ∀ d ∈ c :: piece', Text.isBlank d = false)
      (found.get? name) (found'.get? name) := by
  rcases none_or_some_of_rel (h.rel_get? name) with
    ⟨hnone, hnone'⟩ | ⟨span, span', hspan, hspan', halike⟩
  · rw [hnone, hnone']
    exact .none
  · obtain ⟨body, inner, hbody, haccepts⟩ :=
      h.accepts.exists_body hsolid (mem_of_lookup_eq_some hspan)
    obtain ⟨body', inner', hbody', haccepts'⟩ :=
      h.accepts'.exists_body hsolid (mem_of_lookup_eq_some hspan')
    obtain ⟨c, piece, hreads, -⟩ := hbody haccepts
    obtain ⟨c', piece', hreads', hplain⟩ := hbody' haccepts'
    rw [hspan, hspan']
    exact .some ⟨halike, c :: piece, c', piece', hreads, hreads', hplain⟩

/-- Outcomes that are alike, of a pattern with nothing after it, are matches that are alike. -/
theorem rel_matchAt?_of_rel {place place' : Cursor} (hplace : twin place place')
    (h : Option.Rel (Alike near near) (pattern.outcomeAt (fun stop => some ([], stop)) place)
      (pattern.outcomeAt (fun stop => some ([], stop)) place')) :
    Option.Rel (MatchAlike twin near pattern) (pattern.matchAt? place)
      (pattern.matchAt? place') := by
  rcases none_or_some_of_rel h with ⟨hnone, hnone'⟩ | ⟨one, two, hone, htwo, halike⟩
  · rw [matchAt?, matchAt?, hnone, hnone']
    exact .none
  · have hmatch : pattern.matchAt? place = some ⟨⟨place, one.2⟩, one.1⟩ := by
      rw [matchAt?, hone]
      rfl
    have hmatch' : pattern.matchAt? place' = some ⟨⟨place', two.2⟩, two.1⟩ := by
      rw [matchAt?, htwo]
      rfl
    rw [hmatch, hmatch']
    exact .some ⟨hplace, halike.2, halike.1, (accepts_of_matchAt? hmatch).2,
      (accepts_of_matchAt? hmatch').2⟩

end

/-- Offsets of both texts that have the same places before them. -/
def FreeAlike (twin : Cursor → Cursor → Prop) (free free' : Nat) : Prop :=
  ∀ {place place'}, twin place place' → (free ≤ place.offset ↔ free' ≤ place'.offset)

/-- Places of both texts that stand for each other, with the matches that begin there. -/
structure CandidateAlike (twin : Cursor → Cursor → Prop) (alike : Match → Match → Prop)
    (candidate candidate' : Cursor × Option Match) : Prop where
  place : twin candidate.1 candidate'.1
  found : Option.Rel alike candidate.2 candidate'.2

/-- The same matches are picked from candidates that are alike. -/
theorem forall₂_pick {twin : Cursor → Cursor → Prop} {alike : Match → Match → Prop}
    {candidates candidates' : List (Cursor × Option Match)} {free free' : Nat}
    (hstop : ∀ {found found'}, alike found found' →
      FreeAlike twin found.whole.stop.offset found'.whole.stop.offset)
    (hfree : FreeAlike twin free free')
    (h : List.Forall₂ (CandidateAlike twin alike) candidates candidates') :
    List.Forall₂ alike (pick free candidates) (pick free' candidates') := by
  induction h generalizing free free' with
  | nil => exact .nil
  | @cons candidate candidate' rest rest' halike _ ih =>
      obtain ⟨place, found⟩ := candidate
      obtain ⟨place', found'⟩ := candidate'
      have hplace := halike.place
      have hfound := halike.found
      cases hfound with
      | none => exact ih hfree
      | some hmatch =>
          rw [pick, pick]
          simp only [hfree hplace]
          split
          · exact .cons hmatch (ih (hstop hmatch))
          · exact ih hfree

theorem filterMap_eq_of_forall₂ {α α' β β' : Type} {related : α → α' → Prop} {list : List α}
    {list' : List α'} {pick : α → Option β} {pick' : α' → Option β'} {change : β → β'}
    (h : List.Forall₂ related list list')
    (hpick : ∀ {one two}, related one two → pick' two = (pick one).map change) :
    list'.filterMap pick' = (list.filterMap pick).map change := by
  induction h with
  | nil => rfl
  | @cons one two rest rest' hfirst _ ih =>
      rw [List.filterMap_cons, List.filterMap_cons, hpick hfirst]
      cases pick one with
      | none => exact ih
      | some found => exact congrArg (change found :: ·) ih

theorem filterMap_eq_of_forall₂_of_eq {α α' β : Type} {related : α → α' → Prop} {list : List α}
    {list' : List α'} {pick : α → Option β} {pick' : α' → Option β}
    (h : List.Forall₂ related list list')
    (hpick : ∀ {one two}, related one two → pick' two = pick one) :
    list'.filterMap pick' = list.filterMap pick := by
  have hmap : list'.filterMap pick' = (list.filterMap pick).map id :=
    filterMap_eq_of_forall₂ h fun halike => by rw [hpick halike, Option.map_id_fun, id]
  rwa [List.map_id] at hmap

end LayerLint.Pattern
