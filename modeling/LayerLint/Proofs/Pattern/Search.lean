import LayerLint.Proofs.Pattern.Matching

/-! # Searching a text

Every match that a search finds is a piece of text that the pattern describes. The other way round,
a piece that the pattern describes is passed over only if the search has found a match that begins
before it and ends behind its beginning.
-/

namespace LayerLint.Pattern

open Text (Cursor Span)

variable {pattern : Pattern} {text : List Char} {found : Match}

/-- The text of a remembered piece is what is read from its beginning to its end. -/
theorem Match.toList_text {name : String} {span : Span} {piece : List Char}
    (hget : found.get? name = some span) (hreads : span.start.Reads piece span.stop) :
    (found.text name).toList = piece := by
  rw [Match.text, hget, Option.map_some, Option.getD_some, Span.text, String.toList_ofList,
    Span.chars_eq_of_reads hreads]

theorem mem_of_mem_pick {free : Nat} {candidates : List (Cursor × Option Match)}
    (h : found ∈ pick free candidates) : ∃ place, (place, some found) ∈ candidates := by
  induction candidates generalizing free with
  | nil => cases h
  | cons candidate rest ih =>
      obtain ⟨place, candidate⟩ := candidate
      have hrest (free : Nat) (h : found ∈ pick free rest) :
          ∃ place', (place', some found) ∈ (place, candidate) :: rest :=
        (ih h).imp fun _ => List.mem_cons_of_mem _
      cases candidate with
      | none => exact hrest free h
      | some first =>
          rw [pick] at h
          split at h
          next =>
            rcases List.mem_cons.mp h with rfl | h
            · exact ⟨place, List.mem_cons_self⟩
            · exact hrest _ h
          next => exact hrest free h

/-- A candidate that is not picked begins inside one that is picked before it. -/
theorem exists_mem_pick {free : Nat} {candidates : List (Cursor × Option Match)}
    (hsorted : candidates.Pairwise fun first second => first.1.offset < second.1.offset)
    {place : Cursor} (hmem : (place, some found) ∈ candidates) (hfree : free ≤ place.offset) :
    found ∈ pick free candidates ∨ ∃ before earlier, (before, some earlier) ∈ candidates ∧
      earlier ∈ pick free candidates ∧ before.offset < place.offset ∧
      place.offset < earlier.whole.stop.offset := by
  induction candidates generalizing free with
  | nil => cases hmem
  | cons candidate rest ih =>
      obtain ⟨hfirst, hsorted⟩ := List.pairwise_cons.mp hsorted
      -- the search goes on in the rest, from the same offset or from another one
      have hskip {picked : List Match} {free' : Nat} (hpick : pick free' rest ⊆ picked)
          (hrest : (place, some found) ∈ rest) (hfree : free' ≤ place.offset) :
          found ∈ picked ∨ ∃ before earlier, (before, some earlier) ∈ candidate :: rest ∧
            earlier ∈ picked ∧ before.offset < place.offset ∧
            place.offset < earlier.whole.stop.offset := by
        rcases ih hsorted hrest hfree with h | ⟨before, earlier, hbefore, hearlier, h⟩
        · exact .inl (hpick h)
        · exact .inr ⟨before, earlier, List.mem_cons_of_mem _ hbefore, hpick hearlier, h⟩
      obtain ⟨first, candidate⟩ := candidate
      cases candidate with
      | none =>
          have hrest := (List.mem_cons.mp hmem).resolve_left (by simp)
          exact hskip (List.Subset.refl _) hrest hfree
      | some earlier =>
          rw [pick]
          split
          next hle =>
            rcases List.mem_cons.mp hmem with heq | hrest
            · obtain ⟨rfl, hfound⟩ := Prod.mk.inj heq
              exact .inl (Option.some.inj hfound ▸ List.mem_cons_self)
            · by_cases hstop : earlier.whole.stop.offset ≤ place.offset
              · exact hskip (List.subset_cons_self _ _) hrest hstop
              · exact .inr ⟨first, earlier, List.mem_cons_self, List.mem_cons_self,
                  hfirst _ hrest, Nat.not_le.mp hstop⟩
          next hlt =>
            refine hskip (List.Subset.refl _) ((List.mem_cons.mp hmem).resolve_left ?_) hfree
            intro heq
            exact hlt ((Prod.mk.inj heq).1 ▸ hfree)

theorem pairwise_candidates (pattern : Pattern) (text : List Char) :
    (pattern.candidates text).Pairwise fun first second => first.1.offset < second.1.offset := by
  rw [candidates_eq_map]
  exact List.pairwise_map.mpr (Cursor.pairwise_offset_placesFrom none 0 text)

theorem start_eq_of_mem_candidates {place : Cursor}
    (h : (place, some found) ∈ pattern.candidates text) :
    place ∈ Cursor.places text ∧ found.whole.start = place ∧
      pattern.matchAt? place = some found := by
  rw [candidates_eq_map] at h
  obtain ⟨start, hstart, heq⟩ := List.mem_map.mp h
  obtain ⟨rfl, hmatch⟩ := Prod.mk.inj heq
  exact ⟨hstart, (accepts_of_matchAt? hmatch).1, hmatch⟩

theorem pairwise_pick {free : Nat} {candidates : List (Cursor × Option Match)}
    (hsorted : candidates.Pairwise fun first second => first.1.offset < second.1.offset)
    (hstart : ∀ place found, (place, some found) ∈ candidates → found.whole.start = place) :
    (pick free candidates).Pairwise fun first second =>
      first.whole.start.offset < second.whole.start.offset := by
  induction candidates generalizing free with
  | nil => exact .nil
  | cons candidate rest ih =>
      obtain ⟨hfirst, hsorted⟩ := List.pairwise_cons.mp hsorted
      have hrest (free : Nat) : (pick free rest).Pairwise fun first second =>
          first.whole.start.offset < second.whole.start.offset :=
        ih hsorted fun place found hmem => hstart place found (List.mem_cons_of_mem _ hmem)
      obtain ⟨place, candidate⟩ := candidate
      cases candidate with
      | none => exact hrest free
      | some found =>
          rw [pick]
          split
          next =>
            refine List.pairwise_cons.mpr ⟨?_, hrest _⟩
            intro later hlater
            obtain ⟨behind, hbehind⟩ := mem_of_mem_pick hlater
            rw [hstart place found List.mem_cons_self,
              hstart behind later (List.mem_cons_of_mem _ hbehind)]
            exact hfirst _ hbehind
          next => exact hrest free

/-- Matches are found from the left. -/
theorem pairwise_findAll (pattern : Pattern) (text : List Char) :
    (pattern.findAll text).Pairwise fun first second =>
      first.whole.start.offset < second.whole.start.offset :=
  pairwise_pick (pairwise_candidates pattern text) fun _ _ hmem =>
    (start_eq_of_mem_candidates hmem).2.1

/-- A match that is found is the one that begins at its place. -/
theorem matchAt?_of_mem_findAll (h : found ∈ pattern.findAll text) :
    found.whole.start ∈ Cursor.places text ∧ pattern.matchAt? found.whole.start = some found := by
  obtain ⟨place, hmem⟩ := mem_of_mem_pick h
  obtain ⟨hstart, rfl, hmatch⟩ := start_eq_of_mem_candidates hmem
  exact ⟨hstart, hmatch⟩

/-- A match that is found is a piece of the text that the pattern describes. -/
theorem accepts_of_mem_findAll (h : found ∈ pattern.findAll text) :
    found.whole.start ∈ Cursor.places text ∧
      pattern.Accepts found.whole.start found.captures found.whole.stop := by
  obtain ⟨hstart, hmatch⟩ := matchAt?_of_mem_findAll h
  exact ⟨hstart, (accepts_of_matchAt? hmatch).2⟩

/-- A piece of the text that the pattern describes is where a match begins that is found, or it
begins inside such a match. -/
theorem exists_mem_findAll_of_accepts {start stop : Cursor} {captures : Captures}
    (hstart : start ∈ Cursor.places text) (h : pattern.Accepts start captures stop) :
    ∃ found ∈ pattern.findAll text, found.whole.start = start ∨
      (found.whole.start.offset < start.offset ∧
        start.offset < found.whole.stop.offset) := by
  obtain ⟨found, hfound⟩ := exists_matchAt?_of_accepts h
  have hmem : (start, some found) ∈ pattern.candidates text := by
    rw [candidates_eq_map, ← hfound]
    exact List.mem_map_of_mem hstart
  rcases exists_mem_pick (pairwise_candidates pattern text) hmem (Nat.zero_le _) with
    hpicked | ⟨before, earlier, hbefore, hpicked, hlt, hinside⟩
  · exact ⟨found, hpicked, .inl (accepts_of_matchAt? hfound).1⟩
  · obtain ⟨-, rfl, -⟩ := start_eq_of_mem_candidates hbefore
    exact ⟨earlier, hpicked, .inr ⟨hlt, hinside⟩⟩

/-! ## Blanks in place of matches -/

section

variable {place : Cursor} {free : Nat}

theorem blankOutFrom_covered (h : place.offset < free)
    (rest : List (Cursor × Option Match)) (found : Option Match) :
    blankOutFrom free ((place, found) :: rest) = blankOutFrom free rest := by
  cases found <;> rw [blankOutFrom, if_pos h]

theorem blankOutFrom_none (h : ¬place.offset < free)
    (rest : List (Cursor × Option Match)) :
    blankOutFrom free ((place, none) :: rest) = place.rest.take 1 ++ blankOutFrom free rest := by
  rw [blankOutFrom, if_neg h]

theorem blankOutFrom_some (h : ¬place.offset < free)
    (rest : List (Cursor × Option Match)) (found : Match) :
    blankOutFrom free ((place, some found) :: rest) =
      ' ' :: blankOutFrom found.whole.stop.offset rest := by
  rw [blankOutFrom, if_neg h]

end

/-! ## The whole text -/

theorem whole?_eq_matchAt? (pattern : Pattern) (text : List Char) :
    pattern.whole? text = (andThen pattern finish).matchAt? (Cursor.start text) := by
  rw [whole?, candidates_eq_map, List.head?_map]
  cases text with
  | nil => rfl
  | cons c rest => rfl

/-- A pattern describes a whole text if it describes the text from its beginning to its end. -/
theorem describes_iff : pattern.describes text = true ↔
    ∃ captures stop, pattern.Accepts (Cursor.start text) captures stop ∧ stop.rest = [] := by
  rw [describes, whole?_eq_matchAt?, Option.isSome_iff_exists]
  constructor
  · rintro ⟨found, hfound⟩
    obtain ⟨-, haccepts⟩ := accepts_of_matchAt? hfound
    generalize found.captures = captures at haccepts
    cases haccepts with
    | andThen hpattern hfinish =>
        cases hfinish with
        | finish hend => exact ⟨_, _, hpattern, List.isEmpty_iff.mp hend⟩
  · rintro ⟨captures, stop, haccepts, hrest⟩
    exact exists_matchAt?_of_accepts (.andThen haccepts (.finish (List.isEmpty_iff.mpr hrest)))

end LayerLint.Pattern
