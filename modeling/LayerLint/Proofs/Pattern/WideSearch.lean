import LayerLint.Proofs.Pattern.Widening

/-! # Searching a widened text

A pattern that has no match in the gap has the same matches in a text and in the same text widened by
blanks: the places where they begin are twins, and the pieces that they remember are alike. With a
blank in place of each match, the wide text is still the narrow one, widened by blanks.
-/

namespace LayerLint.Pattern

open Text (Cursor Span Widening Widens)

variable {w : Widening} {pattern : Pattern} {level : Level} {place place' : Cursor}

namespace MatchAlike

variable {found found' : Match} {name : String}

/-- What is remembered under a name is the same text in both matches, but for blanks. -/
theorem widens_text (h : MatchAlike w.Twin w.Near pattern found found') (name : String) :
    Widens (found.text name).toList (found'.text name).toList := by
  unfold Match.text
  rcases none_or_some_of_rel (h.rel_get? name) with
    ⟨hnone, hnone'⟩ | ⟨span, span', hspan, hspan', halike⟩
  · rw [hnone, hnone']
    exact .refl _
  · have hreads {pattern : Pattern} {start stop : Cursor} {captures : Captures} {span : Span}
        (h : pattern.Accepts start captures stop) (hmem : (name, span) ∈ captures) :
        ∃ piece, span.start.Reads piece span.stop := by
      obtain ⟨body, inner, -, hbody⟩ := h.exists_body (remembers_true name pattern) hmem
      exact hbody.exists_reads
    obtain ⟨piece, hpiece⟩ := hreads h.accepts (mem_of_lookup_eq_some hspan)
    obtain ⟨piece', hpiece'⟩ := hreads h.accepts' (mem_of_lookup_eq_some hspan')
    rw [hspan, hspan', Option.map_some, Option.map_some, Option.getD_some, Option.getD_some,
      Span.text, Span.text, Span.chars_eq_of_reads hpiece, Span.chars_eq_of_reads hpiece',
      String.toList_ofList, String.toList_ofList]
    exact halike.start.widens halike.stop hpiece hpiece'

/-- A piece without blanks is the same in both matches. -/
theorem rel_get?_of_solid (h : MatchAlike w.Twin w.Near pattern found found')
    (hsolid : pattern.Remembers name Solid) :
    Option.Rel (fun span span' => w.Twin span.start span'.start ∧ span.text = span'.text)
      (found.get? name) (found'.get? name) := by
  rcases none_or_some_of_rel (h.rel_solid hsolid) with
    ⟨hnone, hnone'⟩ | ⟨span, span', hspan, hspan', halike, piece, c, piece', hreads, hreads', hplain⟩
  · rw [hnone, hnone']
    exact .none
  · have heq := (halike.start.widens halike.stop hreads hreads').eq_of_forall hplain
    rw [hspan, hspan']
    refine .some ⟨halike.start.twin_of_rest hreads'.rest_eq (hplain c List.mem_cons_self), ?_⟩
    rw [Span.text, Span.text, Span.chars_eq_of_reads hreads, Span.chars_eq_of_reads hreads', heq]

theorem map_text_eq (h : MatchAlike w.Twin w.Near pattern found found')
    (hsolid : pattern.Remembers name Solid) :
    (found.get? name).map Span.text = (found'.get? name).map Span.text := by
  rcases none_or_some_of_rel (h.rel_get?_of_solid hsolid) with
    ⟨hnone, hnone'⟩ | ⟨span, span', hspan, hspan', -, htext⟩
  · rw [hnone, hnone']
  · rw [hspan, hspan', Option.map_some, Option.map_some, htext]

theorem text_eq (h : MatchAlike w.Twin w.Near pattern found found')
    (hsolid : pattern.Remembers name Solid) : found.text name = found'.text name := by
  rw [Match.text, Match.text, h.map_text_eq hsolid]

end MatchAlike

/-- The outcomes after the end of a pattern. -/
theorem follows_stop (w : Widening) : Follows w .exact (Alike w.Near w.Near)
    (fun stop => some ([], stop)) (fun stop => some ([], stop)) where
  twin htwin := .some ⟨.nil, .inl htwin⟩
  gap hgap := .some ⟨.nil, .inr ⟨rfl, hgap⟩⟩

theorem Keeps.rel_matchAt? (h : Keeps w pattern .exact level) (htwin : w.Twin place place') :
    Option.Rel (MatchAlike w.Twin w.Near pattern) (pattern.matchAt? place)
      (pattern.matchAt? place') :=
  rel_matchAt?_of_rel htwin ((h _ _ _ _ (follows_stop w)).twin htwin)

theorem Keeps.matchAt?_eq_none (h : Keeps w pattern .exact .silent) (hgap : w.InGap place) :
    pattern.matchAt? place = none :=
  Option.map_eq_none_iff.mpr ((h _ _ _ _ (follows_stop w)).gap hgap)

/-! ## All matches -/

/-- The places of a list, each with the match that begins there. -/
def candidatesAt (pattern : Pattern) (places : List Cursor) : List (Cursor × Option Match) :=
  places.map fun place => (place, pattern.matchAt? place)

theorem pick_append_none {gap : List (Cursor × Option Match)}
    (hgap : ∀ candidate ∈ gap, candidate.2 = none) (free : Nat)
    (first second : List (Cursor × Option Match)) :
    pick free (first ++ (gap ++ second)) = pick free (first ++ second) := by
  induction first generalizing free with
  | nil =>
      induction gap with
      | nil => rfl
      | cons candidate gap ih =>
          obtain ⟨place, found⟩ := candidate
          obtain rfl : found = none := hgap _ List.mem_cons_self
          exact ih fun other hother => hgap other (List.mem_cons_of_mem _ hother)
  | cons candidate first ih =>
      obtain ⟨place, found⟩ := candidate
      cases found with
      | none => exact ih free
      | some found =>
          rw [List.cons_append, List.cons_append, pick, pick]
          split
          · rw [ih]
          · exact ih free

theorem Keeps.forall₂_candidates (h : Keeps w pattern .exact level) {places places' : List Cursor}
    (hplaces : List.Forall₂ w.Twin places places') :
    List.Forall₂ (CandidateAlike w.Twin (MatchAlike w.Twin w.Near pattern))
      (pattern.candidatesAt places) (pattern.candidatesAt places') := by
  unfold candidatesAt
  rw [List.forall₂_map_left_iff, List.forall₂_map_right_iff]
  exact hplaces.imp fun _ _ htwin => ⟨htwin, h.rel_matchAt? htwin⟩

/-- The same matches are found in both texts. -/
theorem Keeps.forall₂_findAll (h : Keeps w pattern .exact .silent) :
    List.Forall₂ (MatchAlike w.Twin w.Near pattern) (pattern.findAll w.narrow)
      (pattern.findAll w.wide) := by
  obtain ⟨hnarrow, inGap, behind, hwide, hahead, hgap, hbehind⟩ := w.exists_places
  rw [findAll, findAll, candidates_eq_map, candidates_eq_map, hnarrow, hwide, List.map_append,
    List.map_append, List.map_append, pick_append_none]
  · apply forall₂_pick fun {_ _} halike => halike.stop.offset_le_iff
    · intro place place' _
      exact iff_of_true (Nat.zero_le _) (Nat.zero_le _)
    · exact List.rel_append (h.forall₂_candidates hahead) (h.forall₂_candidates hbehind)
  · intro candidate hcandidate
    obtain ⟨place, hplace, rfl⟩ := List.mem_map.mp hcandidate
    exact h.matchAt?_eq_none (hgap place hplace)

theorem Keeps.rel_find? (h : Keeps w pattern .exact .silent) :
    Option.Rel (MatchAlike w.Twin w.Near pattern) (pattern.find? w.narrow)
      (pattern.find? w.wide) := by
  have hhead {found found' : List Match}
      (hall : List.Forall₂ (MatchAlike w.Twin w.Near pattern) found found') :
      Option.Rel (MatchAlike w.Twin w.Near pattern) found.head? found'.head? := by
    cases hall with
    | nil => exact .none
    | cons hfirst _ => exact .some hfirst
  exact hhead h.forall₂_findAll

/-! ## The whole text -/

theorem Keeps.rel_whole? (h : Keeps w (.andThen pattern .finish) .exact level) (hne : w.before ≠ []) :
    Option.Rel (MatchAlike w.Twin w.Near (.andThen pattern .finish)) (pattern.whole? w.narrow)
      (pattern.whole? w.wide) := by
  rw [whole?_eq_matchAt?, whole?_eq_matchAt?]
  apply h.rel_matchAt?
  obtain ⟨c, rest, hbefore⟩ := List.exists_cons_of_ne_nil hne
  have hsplit : w.before = [] ++ c :: rest := hbefore
  have htwin := Widening.Twin.ahead hsplit
  rw [Widening.narrow, Widening.wide, hbefore]
  exact htwin

/-! ## Blanks in place of matches -/

/-- A piece is left of the candidates, and the search goes on at an offset, whatever follows on
them. -/
def Leaves (free : Nat) (candidates : List (Cursor × Option Match)) (piece : List Char)
    (stop : Nat) : Prop :=
  ∀ rest, blankOutFrom free (candidates ++ rest) = piece ++ blankOutFrom stop rest

namespace Leaves

variable {free stop : Nat} {candidates : List (Cursor × Option Match)} {piece : List Char}

theorem covered (h : Leaves free candidates piece stop) (hcovered : place.offset < free)
    (found : Option Match) : Leaves free ((place, found) :: candidates) piece stop := by
  intro rest
  rw [List.cons_append, blankOutFrom_covered hcovered, h]

theorem none (h : Leaves free candidates piece stop) (hfree : ¬place.offset < free) {c : Char}
    {more : List Char} (hrest : place.rest = c :: more) :
    Leaves free ((place, none) :: candidates) (c :: piece) stop := by
  intro rest
  rw [List.cons_append, blankOutFrom_none hfree, hrest, h]
  rfl

theorem some {found : Match} (h : Leaves found.whole.stop.offset candidates piece stop)
    (hfree : ¬place.offset < free) :
    Leaves free ((place, some found) :: candidates) (' ' :: piece) stop := by
  intro rest
  rw [List.cons_append, blankOutFrom_some hfree, h]
  rfl

end Leaves

theorem isBlank_of_getLast?_cons {c : Char} {piece : List Char}
    (hlast : ∀ d, piece.getLast? = some d → Text.isBlank d = true)
    (hc : piece = [] → Text.isBlank c = true) :
    ∀ d, (c :: piece).getLast? = some d → Text.isBlank d = true := by
  intro d hd
  cases piece with
  | nil =>
      obtain rfl := Option.some.inj hd
      exact hc rfl
  | cons e piece => exact hlast d hd

/-- In front of the seam the same text is left of both. It ends with a blank, and there is some
unless a match from before covers all of it. -/
theorem Keeps.exists_leaves_ahead (h : Keeps w pattern .exact level) {first second : List Char}
    (hsplit : w.before = first ++ second) {free free' : Nat} (hfree : FreeAlike w.Twin free free') :
    ∃ piece stop stop', FreeAlike w.Twin stop stop' ∧
      Leaves free (pattern.candidatesAt (Cursor.placesIn first second w.after)) piece stop ∧
      Leaves free' (pattern.candidatesAt (Cursor.placesIn first second (w.gap ++ w.after)))
        piece stop' ∧
      (∀ c, piece.getLast? = some c → Text.isBlank c = true) ∧
      (second ≠ [] → free ≤ Text.byteSize first → piece ≠ []) := by
  induction second generalizing first free free' with
  | nil => exact ⟨[], free, free', hfree, fun _ => rfl, fun _ => rfl, by simp, by simp⟩
  | cons c second ih =>
      have htwin := Widening.Twin.ahead hsplit
      have hnext : w.before = (first ++ [c]) ++ second := by rw [hsplit, List.append_assoc]; rfl
      have hcovers : Text.byteSize first < free ↔ Text.byteSize first < free' := by
        rw [← Nat.not_le, ← Nat.not_le]
        exact not_congr (hfree htwin)
      by_cases hcovered : Text.byteSize first < free
      · obtain ⟨piece, stop, stop', hstops, hnarrow, hwide, hlast, -⟩ := ih hnext hfree
        exact ⟨piece, stop, stop', hstops, hnarrow.covered hcovered _,
          hwide.covered (hcovers.mp hcovered) _, hlast,
          fun _ hle => (Nat.not_le.mpr hcovered hle).elim⟩
      · have hcovered' := mt hcovers.mpr hcovered
        simp only [candidatesAt, Cursor.placesIn, List.map_cons] at ih ⊢
        rcases none_or_some_of_rel (h.rel_matchAt? htwin) with
          ⟨hnone, hnone'⟩ | ⟨one, two, hone, htwo, halike⟩
        · obtain ⟨piece, stop, stop', hstops, hnarrow, hwide, hlast, hne⟩ := ih hnext hfree
          rw [hnone, hnone']
          refine ⟨c :: piece, stop, stop', hstops, hnarrow.none hcovered rfl,
            hwide.none hcovered' rfl, isBlank_of_getLast?_cons hlast ?_,
            fun _ _ => List.cons_ne_nil _ _⟩
          intro hpiece
          -- nothing is left behind the character, so it is the last one before the seam
          have hsecond : second = [] := by
            by_contra hsecond
            refine hne hsecond ?_ hpiece
            rw [Text.byteSize_append]
            omega
          exact Widening.isBlank_of_before_eq (hsecond ▸ hsplit)
        · obtain ⟨piece, stop, stop', hstops, hnarrow, hwide, hlast, -⟩ :=
            ih hnext halike.stop.offset_le_iff
          rw [hone, htwo]
          exact ⟨' ' :: piece, stop, stop', hstops, hnarrow.some hcovered, hwide.some hcovered',
            isBlank_of_getLast?_cons hlast fun _ => by decide, fun _ _ => List.cons_ne_nil _ _⟩

/-- In the gap only blanks are left. -/
theorem Keeps.exists_leaves_gap (h : Keeps w pattern .exact .silent) (free : Nat)
    {places : List Cursor} (hplaces : ∀ place ∈ places, w.InGap place) :
    ∃ piece, (∀ c ∈ piece, Text.isBlank c = true) ∧
      Leaves free (pattern.candidatesAt places) piece free := by
  induction places with
  | nil => exact ⟨[], by simp, fun _ => rfl⟩
  | cons place places ih =>
      obtain ⟨hplace, hplaces⟩ := List.forall_mem_cons.mp hplaces
      obtain ⟨piece, hblank, hpiece⟩ := ih hplaces
      simp only [candidatesAt, List.map_cons, h.matchAt?_eq_none hplace] at hpiece ⊢
      by_cases hcovered : place.offset < free
      · exact ⟨piece, hblank, hpiece.covered hcovered _⟩
      · cases hplace with
        | @mk first second c hsplit =>
            exact ⟨c :: piece, List.forall_mem_cons.mpr
              ⟨Widening.isBlank_of_gap_eq hsplit, hblank⟩, hpiece.none hcovered rfl⟩

/-- Behind the seam the same text is left of both. -/
theorem Keeps.blankOutFrom_eq (h : Keeps w pattern .exact level) {free free' : Nat}
    (hfree : FreeAlike w.Twin free free') {places places' : List Cursor}
    (hplaces : List.Forall₂ w.Twin places places') :
    blankOutFrom free (pattern.candidatesAt places) =
      blankOutFrom free' (pattern.candidatesAt places') := by
  unfold candidatesAt
  induction hplaces generalizing free free' with
  | nil => rfl
  | @cons place place' places places' htwin _ ih =>
      have hcovers : place.offset < free ↔ place'.offset < free' := by
        rw [← Nat.not_le, ← Nat.not_le]
        exact not_congr (hfree htwin)
      rw [List.map_cons, List.map_cons]
      by_cases hcovered : place.offset < free
      · rw [blankOutFrom_covered hcovered, blankOutFrom_covered (hcovers.mp hcovered)]
        exact ih hfree
      · have hcovered' := mt hcovers.mpr hcovered
        rcases none_or_some_of_rel (h.rel_matchAt? htwin) with
          ⟨hnone, hnone'⟩ | ⟨one, two, hone, htwo, halike⟩
        · rw [hnone, hnone', blankOutFrom_none hcovered, blankOutFrom_none hcovered', ih hfree]
          rcases htwin.step with ⟨hrest, hrest'⟩ | ⟨c, rest, rest', hrest, hrest', -⟩
          · rw [hrest, hrest']
          · rw [hrest, hrest']
            rfl
        · rw [hone, htwo, blankOutFrom_some hcovered, blankOutFrom_some hcovered',
            ih halike.stop.offset_le_iff]

/-- With a blank in place of each match, the wide text is the narrow one, widened by blanks. -/
theorem Keeps.widens_blankOut (h : Keeps w pattern .exact .silent) :
    Widens (pattern.blankOut w.narrow) (pattern.blankOut w.wide) := by
  obtain ⟨hnarrow, inGap, behind, hwide, -, hgap, hbehind⟩ := w.exists_places
  have hfree : FreeAlike w.Twin 0 0 := fun _ => iff_of_true (Nat.zero_le _) (Nat.zero_le _)
  obtain ⟨before, stop, stop', hstops, hbefore, hbefore', hlast, -⟩ :=
    h.exists_leaves_ahead (List.nil_append w.before).symm hfree
  obtain ⟨gap, hblank, hpiece⟩ := h.exists_leaves_gap stop' hgap
  refine ⟨⟨before, gap, blankOutFrom stop (pattern.candidatesAt (Cursor.placesBehind w.before w.after)),
    hblank, hlast⟩, ?_, ?_⟩
  · rw [blankOut, candidates_eq_map, hnarrow, List.map_append]
    exact hbefore _
  · rw [blankOut, candidates_eq_map, hwide, List.map_append, List.map_append]
    refine (hbefore' _).trans ?_
    rw [Widening.wide, h.blankOutFrom_eq hstops hbehind]
    exact congrArg (before ++ ·) (hpiece _)

end LayerLint.Pattern
