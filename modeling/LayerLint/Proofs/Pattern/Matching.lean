import LayerLint.Pattern.Search
import LayerLint.Proofs.Pattern.Language

/-! # Matching at one place

Matching at all places of a text at once gives at each place what matching from that place alone
would give: the first way in which the pattern matches and what comes after it has an outcome. So a
pattern has a match at a place exactly when its language has a piece of text that begins there.
-/

namespace LayerLint

open Text (Cursor Span)

namespace Outcomes

variable {α β : Type}

/-- What a sweep over the places of a text settles on at the first of them. -/
def sweepFrom (settle : Cursor → Option α → Option α → Option α) (outcome : Cursor → Option α)
    (before : Option Char) (offset : Nat) : List Char → Option α
  | [] => settle ⟨before, offset, []⟩ (outcome ⟨before, offset, []⟩) none
  | c :: rest =>
      settle ⟨before, offset, c :: rest⟩ (outcome ⟨before, offset, c :: rest⟩)
        (sweepFrom settle outcome (some c) (offset + c.utf8Size) rest)

/-- What a sweep over the places of a text settles on at a place. -/
def sweepAt (settle : Cursor → Option α → Option α → Option α) (outcome : Cursor → Option α)
    (place : Cursor) : Option α :=
  sweepFrom settle outcome place.before place.offset place.rest

theorem placesFrom_eq_cons (before : Option Char) (offset : Nat) (text : List Char) :
    ∃ tail, Cursor.placesFrom before offset text = ⟨before, offset, text⟩ :: tail := by
  cases text with
  | nil => exact ⟨[], rfl⟩
  | cons c rest => exact ⟨_, rfl⟩

theorem sweep_map (settle : Cursor → Option α → Option α → Option α)
    (outcome : Cursor → Option α) (before : Option Char) (offset : Nat) (text : List Char) :
    sweep settle (Cursor.placesFrom before offset text)
        ((Cursor.placesFrom before offset text).map outcome) =
      (Cursor.placesFrom before offset text).map (sweepAt settle outcome) := by
  induction text generalizing before offset with
  | nil => rfl
  | cons c rest ih =>
      have htail := ih (some c) (offset + c.utf8Size)
      obtain ⟨tail, hplaces⟩ := placesFrom_eq_cons (some c) (offset + c.utf8Size) rest
      have hhead : ((Cursor.placesFrom (some c) (offset + c.utf8Size) rest).map
          (sweepAt settle outcome)).head?.join =
            sweepFrom settle outcome (some c) (offset + c.utf8Size) rest := by
        rw [hplaces]
        rfl
      unfold sweep at htail ⊢
      rw [Cursor.placesFrom, List.map_cons, List.zip_cons_cons, List.foldr_cons, htail, hhead,
        List.map_cons]
      rfl

/-- The outcome of the place past the next character, if that is of a class. -/
def pastAt (ok : Char → Bool) (outcome : Cursor → Option α) (place : Cursor) : Option α :=
  match place.rest with
  | [] => none
  | c :: rest => if ok c then outcome (place.past c rest) else none

theorem pastAt_eq_none {ok : Char → Bool} {outcome : Cursor → Option α} {place : Cursor}
    (h : place.precedes ok = false) : pastAt ok outcome place = none := by
  unfold pastAt
  split
  next => rfl
  next c rest hrest =>
    rw [Cursor.precedes, hrest, List.head?_cons, Option.any_some] at h
    rw [h, if_neg Bool.false_ne_true]

theorem next_map (ok : Char → Bool) (outcome : Cursor → Option α) (before : Option Char)
    (offset : Nat) (text : List Char) :
    (next ((Cursor.placesFrom before offset text).map outcome)).filter (·.precedes ok)
        (Cursor.placesFrom before offset text) =
      (Cursor.placesFrom before offset text).map (pastAt ok outcome) := by
  induction text generalizing before offset with
  | nil => rfl
  | cons c rest ih =>
      have htail := ih (some c) (offset + c.utf8Size)
      obtain ⟨tail, hplaces⟩ := placesFrom_eq_cons (some c) (offset + c.utf8Size) rest
      rw [hplaces] at htail
      rw [Cursor.placesFrom, hplaces]
      unfold next Outcomes.filter at htail ⊢
      simp only [List.map_cons, List.drop_one, List.tail_cons, List.cons_append,
        List.zipWith_cons_cons] at htail ⊢
      have hhead : (outcome ⟨some c, offset + c.utf8Size, rest⟩).filter
          (fun _ => Cursor.precedes ok ⟨before, offset, c :: rest⟩) =
            pastAt ok outcome ⟨before, offset, c :: rest⟩ := by
        simp only [Cursor.precedes, List.head?_cons, Option.any_some, pastAt, Cursor.past]
        cases ok c <;> cases outcome ⟨some c, offset + c.utf8Size, rest⟩ <;> rfl
      rw [htail, hhead]

theorem zipWith_map_self (combine : Cursor → α → β) (places : List Cursor)
    (outcome : Cursor → α) :
    places.zipWith combine (places.map outcome) =
      places.map fun place => combine place (outcome place) := by
  rw [List.zipWith_map_right, List.zipWith_self]

/-- A sweep that goes on with runs of characters of a class: what it settles on at a place is the
old outcome there or, if such a character follows, what it has settled on behind it. -/
structure GoesOn (ok : Char → Bool)
    (settle : Cursor → Option α → Option α → Option α) : Prop where
  eq_some : ∀ place here later found, settle place here later = some found →
    here = some found ∨ (place.precedes ok = true ∧ later = some found)
  isSome : ∀ place here later, here.isSome = true ∨
    (place.precedes ok = true ∧ later.isSome = true) → (settle place here later).isSome = true

theorem goesOn_long (ok : Char → Bool) : GoesOn (α := α) ok
    fun place here later => if place.precedes ok then later.or here else here where
  eq_some place here later found h := by
    split at h
    next hnext =>
      exact (Option.or_eq_some_iff.mp h).elim (fun h => .inr ⟨hnext, h⟩) fun h => .inl h.2
    next => exact .inl h
  isSome place here later h := by
    split
    next => rw [Option.isSome_or]; rcases h with h | ⟨-, h⟩ <;> simp [h]
    next hnext => exact h.resolve_right fun h => hnext h.1

theorem goesOn_short (ok : Char → Bool) : GoesOn (α := α) ok
    fun place here later => here.or (if place.precedes ok then later else none) where
  eq_some place here later found h := by
    rcases Option.or_eq_some_iff.mp h with h | ⟨-, h⟩
    · exact .inl h
    · split at h
      next hnext => exact .inr ⟨hnext, h⟩
      next => cases h
  isSome place here later h := by
    rw [Option.isSome_or]
    rcases h with h | ⟨hnext, h⟩ <;> simp [h]
    simp [hnext, h]

variable {settle : Cursor → Option α → Option α → Option α} {outcome : Cursor → Option α}
  {ok : Char → Bool} {start stop : Cursor}

theorem exists_of_sweepAt_eq_some (hsettle : GoesOn ok settle) {found : α}
    (h : sweepAt settle outcome start = some found) :
    ∃ run stop, start.Reads run stop ∧ (∀ c ∈ run, ok c = true) ∧ outcome stop = some found := by
  obtain ⟨before, offset, text⟩ := start
  unfold sweepAt at h
  dsimp only at h
  induction text generalizing before offset with
  | nil =>
      rcases hsettle.eq_some _ _ _ _ h with hhere | ⟨hnext, -⟩
      · exact ⟨[], _, .refl _, by simp, hhere⟩
      · cases hnext
  | cons c rest ih =>
      rcases hsettle.eq_some _ _ _ _ h with hhere | ⟨hnext, hlater⟩
      · exact ⟨[], _, .refl _, by simp, hhere⟩
      · obtain ⟨run, stop, hreads, hok, hfound⟩ := ih _ _ hlater
        refine ⟨c :: run, stop, (Cursor.Reads.past rfl).append hreads, ?_, hfound⟩
        exact List.forall_mem_cons.mpr ⟨hnext, hok⟩

theorem isSome_sweepAt (hsettle : GoesOn ok settle) {run : List Char}
    (hreads : start.Reads run stop) (hok : ∀ c ∈ run, ok c = true)
    (hstop : (outcome stop).isSome = true) : (sweepAt settle outcome start).isSome = true := by
  induction run generalizing start with
  | nil =>
      obtain rfl := hreads.eq_of_nil
      obtain ⟨before, offset, text⟩ := stop
      unfold sweepAt
      cases text <;> exact hsettle.isSome _ _ _ (.inl hstop)
  | cons c run ih =>
      obtain ⟨before, offset, text⟩ := start
      obtain rfl : text = c :: (run ++ stop.rest) := hreads.rest_eq
      have hlater := ih hreads.tail fun d hd => hok d (List.mem_cons_of_mem _ hd)
      exact hsettle.isSome _ _ _ (.inr ⟨hok c List.mem_cons_self, hlater⟩)

/-- Where a run of characters of a class can go no further and there is an outcome, the longest
run has that outcome. -/
theorem sweepAt_long_eq {run : List Char} (hreads : start.Reads run stop)
    (hok : ∀ c ∈ run, ok c = true) (hend : stop.precedes ok = false)
    (hstop : (outcome stop).isSome = true) :
    sweepAt (fun place here later => if place.precedes ok then later.or here else here) outcome
      start = outcome stop := by
  induction run generalizing start with
  | nil =>
      obtain rfl := hreads.eq_of_nil
      obtain ⟨before, offset, text⟩ := stop
      unfold sweepAt
      cases text <;> simp [sweepFrom, hend]
  | cons c run ih =>
      obtain ⟨before, offset, text⟩ := start
      obtain rfl : text = c :: (run ++ stop.rest) := hreads.rest_eq
      have hlater := ih hreads.tail fun d hd => hok d (List.mem_cons_of_mem _ hd)
      unfold sweepAt Cursor.past at hlater
      unfold sweepAt
      rw [sweepFrom, hlater, Cursor.precedes, List.head?_cons, Option.any_some,
        hok c List.mem_cons_self, if_pos rfl, Option.or_of_isSome hstop]

/-- A sweep that goes on with characters of a class alone meets no other outcomes. -/
theorem sweepAt_congr (ok : Char → Bool) {outcome' : Cursor → Option α}
    (hstops : ∀ place here later, place.precedes ok = false → settle place here later = here)
    (h : ∀ run stop, start.Reads run stop → (∀ c ∈ run, ok c = true) → outcome stop = outcome' stop) :
    sweepAt settle outcome start = sweepAt settle outcome' start := by
  obtain ⟨before, offset, text⟩ := start
  unfold sweepAt
  dsimp only
  induction text generalizing before offset with
  | nil => rw [sweepFrom, sweepFrom, h [] _ (.refl _) (by simp)]
  | cons c rest ih =>
      rw [sweepFrom, sweepFrom, h [] _ (.refl _) (by simp)]
      by_cases hok : ok c = true
      · rw [ih]
        intro run stop hreads hrun
        exact h (c :: run) stop ((Cursor.Reads.past rfl).append hreads)
          (List.forall_mem_cons.mpr ⟨hok, hrun⟩)
      · have hstop : Cursor.precedes ok ⟨before, offset, c :: rest⟩ = false :=
          (Bool.not_eq_true _).mp hok
        rw [hstops _ _ _ hstop, hstops _ _ _ hstop]

end Outcomes

namespace Pattern

/-- The outcome of a pattern and what comes after it at one place, given the outcomes of what comes
after it. -/
def outcomeAt : Pattern → {β : Type} → (Cursor → Option (Captures × β)) →
    Cursor → Option (Captures × β)
  | empty, _, outcome => outcome
  | one ok, _, outcome => Outcomes.pastAt ok outcome
  | long ok, _, outcome => Outcomes.sweepAt
      (fun place here later => if place.precedes ok then later.or here else here) outcome
  | short ok, _, outcome => Outcomes.sweepAt
      (fun place here later => here.or (if place.precedes ok then later else none)) outcome
  | boundary, _, outcome => fun place => (outcome place).filter fun _ => place.isAtWordBoundary
  | finish, _, outcome => fun place => (outcome place).filter fun _ => place.isAtEnd
  | andThen first second, _, outcome => first.outcomeAt (second.outcomeAt outcome)
  | orElse first second, _, outcome => fun place =>
      (first.outcomeAt outcome place).or (second.outcomeAt outcome place)
  | named name body, _, outcome => fun start =>
      (body.outcomeAt (fun stop => (outcome stop).map fun found => (found.1, stop, found.2))
        start).map fun found => ((name, ⟨start, found.2.1⟩) :: found.1, found.2.2)

/-- Matching at all places at once is matching at each of them. -/
theorem run_map (pattern : Pattern) {β : Type} (outcome : Cursor → Option (Captures × β))
    (before : Option Char) (offset : Nat) (text : List Char) :
    pattern.run (Cursor.placesFrom before offset text)
        ((Cursor.placesFrom before offset text).map outcome) =
      (Cursor.placesFrom before offset text).map (pattern.outcomeAt outcome) := by
  induction pattern generalizing β with
  | empty => rfl
  | one ok => exact Outcomes.next_map ok outcome before offset text
  | long ok =>
      rw [run, outcomeAt, Outcomes.long]
      exact Outcomes.sweep_map _ outcome before offset text
  | short ok =>
      rw [run, outcomeAt, Outcomes.short]
      exact Outcomes.sweep_map _ outcome before offset text
  | boundary => exact Outcomes.zipWith_map_self _ _ outcome
  | finish => exact Outcomes.zipWith_map_self _ _ outcome
  | andThen first second ihfirst ihsecond => rw [run, ihsecond, ihfirst, outcomeAt]
  | orElse first second ihfirst ihsecond =>
      rw [run, ihfirst, ihsecond, Outcomes.orElse, List.zipWith_map, List.zipWith_self]
      rfl
  | named name body ih =>
      rw [run, Outcomes.map, Outcomes.map, Outcomes.zipWith_map_self, ih,
        Outcomes.zipWith_map_self]
      rfl

/-- An outcome at a place comes from a piece of text that the pattern describes there. -/
theorem exists_of_outcomeAt_eq_some {pattern : Pattern} {β : Type}
    {outcome : Cursor → Option (Captures × β)} {start : Cursor} {found : Captures × β}
    (h : pattern.outcomeAt outcome start = some found) :
    ∃ stop captures more, pattern.Accepts start captures stop ∧ outcome stop = some more ∧
      found = (captures ++ more.1, more.2) := by
  induction pattern generalizing β start found with
  | empty => exact ⟨start, [], found, .empty, h, rfl⟩
  | one ok =>
      simp only [outcomeAt, Outcomes.pastAt] at h
      split at h
      next => cases h
      next c rest hrest =>
        split at h
        next hok => exact ⟨_, [], found, .one (.past hrest) hok, h, rfl⟩
        next => cases h
  | long ok =>
      obtain ⟨run, stop, hreads, hok, hstop⟩ :=
        Outcomes.exists_of_sweepAt_eq_some (Outcomes.goesOn_long ok) h
      exact ⟨stop, [], found, .long hreads hok, hstop, rfl⟩
  | short ok =>
      obtain ⟨run, stop, hreads, hok, hstop⟩ :=
        Outcomes.exists_of_sweepAt_eq_some (Outcomes.goesOn_short ok) h
      exact ⟨stop, [], found, .short hreads hok, hstop, rfl⟩
  | boundary =>
      obtain ⟨hfound, hok⟩ := Option.filter_eq_some_iff.mp h
      exact ⟨start, [], found, .boundary hok, hfound, rfl⟩
  | finish =>
      obtain ⟨hfound, hok⟩ := Option.filter_eq_some_iff.mp h
      exact ⟨start, [], found, .finish hok, hfound, rfl⟩
  | andThen first second ihfirst ihsecond =>
      obtain ⟨middle, captures, more, hfirst, hmiddle, rfl⟩ := ihfirst h
      obtain ⟨stop, later, more, hsecond, hstop, rfl⟩ := ihsecond hmiddle
      exact ⟨stop, captures ++ later, more, .andThen hfirst hsecond, hstop, by simp⟩
  | orElse first second ihfirst ihsecond =>
      rcases Option.or_eq_some_iff.mp h with h | ⟨-, h⟩
      · obtain ⟨stop, captures, more, haccepts, hstop, rfl⟩ := ihfirst h
        exact ⟨stop, captures, more, .orElseFirst haccepts, hstop, rfl⟩
      · obtain ⟨stop, captures, more, haccepts, hstop, rfl⟩ := ihsecond h
        exact ⟨stop, captures, more, .orElseSecond haccepts, hstop, rfl⟩
  | named name body ih =>
      obtain ⟨inner, hinner, rfl⟩ := Option.map_eq_some_iff.mp h
      obtain ⟨stop, captures, handed, haccepts, hhanded, rfl⟩ := ih hinner
      obtain ⟨more, hstop, rfl⟩ := Option.map_eq_some_iff.mp hhanded
      exact ⟨stop, (name, ⟨start, stop⟩) :: captures, more, .named haccepts, hstop, rfl⟩

/-- Where the pattern describes a piece of text that leads to an outcome, there is an outcome. -/
theorem isSome_outcomeAt {pattern : Pattern} {start stop : Cursor} {captures : Captures}
    (h : pattern.Accepts start captures stop) {β : Type}
    {outcome : Cursor → Option (Captures × β)} (hstop : (outcome stop).isSome = true) :
    (pattern.outcomeAt outcome start).isSome = true := by
  induction h generalizing β with
  | empty => exact hstop
  | one hreads hok =>
      rw [hreads.eq_past] at hstop
      simp [outcomeAt, Outcomes.pastAt, hreads.rest_eq, hok, hstop]
  | long hreads hok => exact Outcomes.isSome_sweepAt (Outcomes.goesOn_long _) hreads hok hstop
  | short hreads hok => exact Outcomes.isSome_sweepAt (Outcomes.goesOn_short _) hreads hok hstop
  | boundary hok | finish hok =>
      obtain ⟨found, hfound⟩ := Option.isSome_iff_exists.mp hstop
      simp [outcomeAt, hfound, hok]
  | andThen hfirst hsecond ihfirst ihsecond => exact ihfirst (ihsecond hstop)
  | orElseFirst h ih => simp [outcomeAt, Option.isSome_or, ih hstop]
  | orElseSecond h ih => simp [outcomeAt, Option.isSome_or, ih hstop]
  | named h ih =>
      rw [outcomeAt, Option.isSome_map]
      exact ih (by rw [Option.isSome_map]; exact hstop)

/-- What a pattern finds at a place depends only on the outcomes where it can end. -/
theorem outcomeAt_congr {pattern : Pattern} {β : Type}
    {outcome outcome' : Cursor → Option (Captures × β)} {start : Cursor}
    (h : ∀ captures stop, pattern.Accepts start captures stop → outcome stop = outcome' stop) :
    pattern.outcomeAt outcome start = pattern.outcomeAt outcome' start := by
  induction pattern generalizing β start with
  | empty => exact h _ _ .empty
  | one ok =>
      simp only [outcomeAt, Outcomes.pastAt]
      split
      next => rfl
      next c rest hrest =>
        split
        next hok => exact h _ _ (.one (.past hrest) hok)
        next => rfl
  | long ok =>
      refine Outcomes.sweepAt_congr ok (fun _ _ _ hstop => by simp [hstop]) ?_
      intro run stop hreads hok
      exact h _ _ (.long hreads hok)
  | short ok =>
      refine Outcomes.sweepAt_congr ok (fun _ _ _ hstop => by simp [hstop]) ?_
      intro run stop hreads hok
      exact h _ _ (.short hreads hok)
  | boundary =>
      simp only [outcomeAt]
      cases hok : start.isAtWordBoundary with
      | true => rw [h _ _ (.boundary hok)]
      | false => cases outcome start <;> cases outcome' start <;> rfl
  | finish =>
      simp only [outcomeAt]
      cases hok : start.isAtEnd with
      | true => rw [h _ _ (.finish hok)]
      | false => cases outcome start <;> cases outcome' start <;> rfl
  | andThen first second ihfirst ihsecond =>
      apply ihfirst
      intro captures middle hfirst
      apply ihsecond
      intro more stop hsecond
      exact h _ _ (.andThen hfirst hsecond)
  | orElse first second ihfirst ihsecond =>
      simp only [outcomeAt]
      rw [ihfirst fun captures stop hfirst => h _ _ (.orElseFirst hfirst),
        ihsecond fun captures stop hsecond => h _ _ (.orElseSecond hsecond)]
  | named name body ih =>
      simp only [outcomeAt]
      rw [ih]
      intro captures stop hbody
      rw [h _ _ (.named hbody)]

/-! ## Ways that are forced -/

section

variable {β : Type} {outcome : Cursor → Option (Captures × β)} {start stop : Cursor}

theorem outcomeAt_one {ok : Char → Bool} {c : Char} (hreads : start.Reads [c] stop)
    (hok : ok c = true) : (one ok).outcomeAt outcome start = outcome stop := by
  rw [hreads.eq_past]
  simp [outcomeAt, Outcomes.pastAt, hreads.rest_eq, hok]

theorem outcomeAt_word {text : String} (hreads : start.Reads text.toList stop) :
    (word text).outcomeAt outcome start = outcome stop := by
  unfold word
  generalize text.toList = chars at hreads ⊢
  induction chars generalizing start with
  | nil => rw [hreads.eq_of_nil]; rfl
  | cons c rest ih =>
      have hfirst : start.Reads [c] (start.past c (rest ++ stop.rest)) := .past hreads.rest_eq
      refine Eq.trans ?_ (ih hreads.tail)
      exact outcomeAt_one hfirst (beq_self_eq_true c)

theorem outcomeAt_one_long {ok ok' : Char → Bool} {c : Char} {run : List Char}
    (hreads : start.Reads (c :: run) stop) (hc : ok c = true) (hrun : ∀ d ∈ run, ok' d = true)
    (hend : stop.precedes ok' = false) (hstop : (outcome stop).isSome = true) :
    (andThen (one ok) (long ok')).outcomeAt outcome start = outcome stop :=
  (outcomeAt_one (.past hreads.rest_eq) hc).trans <|
    Outcomes.sweepAt_long_eq hreads.tail hrun hend hstop

theorem outcomeAt_named {name : String} {ok ok' : Char → Bool} {c : Char} {run : List Char}
    {found : Captures × β} (hreads : start.Reads (c :: run) stop) (hc : ok c = true)
    (hrun : ∀ d ∈ run, ok' d = true) (hend : stop.precedes ok' = false)
    (hstop : outcome stop = some found) :
    (named name (andThen (one ok) (long ok'))).outcomeAt outcome start =
      some ((name, ⟨start, stop⟩) :: found.1, found.2) := by
  change ((andThen (one ok) (long ok')).outcomeAt _ start).map _ = _
  rw [outcomeAt_one_long hreads hc hrun hend (by rw [hstop]; rfl), hstop]
  rfl

end

/-! ## Searching -/

/-- The match that begins at a place, if there is one. -/
def matchAt? (pattern : Pattern) (start : Cursor) : Option Match :=
  (pattern.outcomeAt (fun stop => some ([], stop)) start).map fun found =>
    ⟨⟨start, found.2⟩, found.1⟩

theorem candidates_eq_map (pattern : Pattern) (text : List Char) :
    pattern.candidates text =
      (Cursor.places text).map fun place => (place, pattern.matchAt? place) := by
  simp only [candidates, ends, Cursor.places, Outcomes.map]
  rw [run_map, Outcomes.zipWith_map_self, List.zip_eq_zipWith, Outcomes.zipWith_map_self]
  rfl

theorem accepts_of_matchAt? {pattern : Pattern} {start : Cursor} {found : Match}
    (h : pattern.matchAt? start = some found) :
    found.whole.start = start ∧
      pattern.Accepts start found.captures found.whole.stop := by
  obtain ⟨outcome, houtcome, rfl⟩ := Option.map_eq_some_iff.mp h
  obtain ⟨stop, captures, more, haccepts, hstop, rfl⟩ := exists_of_outcomeAt_eq_some houtcome
  cases hstop
  exact ⟨rfl, by simpa using haccepts⟩

theorem exists_matchAt?_of_accepts {pattern : Pattern} {start stop : Cursor}
    {captures : Captures} (h : pattern.Accepts start captures stop) :
    ∃ found, pattern.matchAt? start = some found := by
  rw [← Option.isSome_iff_exists, matchAt?, Option.isSome_map]
  exact isSome_outcomeAt h rfl

end Pattern

end LayerLint
