import LayerLint.Proofs.Text.Blank
import LayerLint.Proofs.Text.Reading
import Mathlib.Data.List.Forall2

/-! # Widening the blanks of a text

A text is widened by blanks that are put in at its beginning or behind another blank. Every place of
the narrow text has a twin in the wide one; the place where the blanks are put in, the seam, is the
twin of the place behind them. The other places of the wide text lie in the gap, in front of a
blank.
-/

namespace LayerLint.Text

namespace Cursor

/-- The place between two parts of a text. -/
def between (before rest : List Char) : Cursor :=
  ⟨before.getLast?, byteSize before, rest⟩

theorem past_between (before : List Char) (c : Char) (rest : List Char) :
    (between before (c :: rest)).past c rest = between (before ++ [c]) rest := by
  simp [between, past]

theorem reads_between (before piece rest : List Char) :
    (between before (piece ++ rest)).Reads piece (between (before ++ piece) rest) where
  rest_eq := rfl
  offset_eq := byteSize_append before piece
  before_eq := List.getLast?_append

/-- The places in front of the characters of a piece. -/
def placesIn (before : List Char) : List Char → List Char → List Cursor
  | [], _ => []
  | c :: piece, rest => between before (c :: (piece ++ rest)) :: placesIn (before ++ [c]) piece rest

/-- The places of the second part of a text. -/
def placesBehind (before rest : List Char) : List Cursor :=
  placesFrom before.getLast? (byteSize before) rest

theorem placesBehind_cons (before : List Char) (c : Char) (rest : List Char) :
    placesBehind before (c :: rest) =
      between before (c :: rest) :: placesBehind (before ++ [c]) rest := by
  rw [placesBehind, placesBehind, placesFrom, byteSize_append, List.getLast?_append]
  rfl

theorem placesBehind_append (before piece rest : List Char) :
    placesBehind before (piece ++ rest) =
      placesIn before piece rest ++ placesBehind (before ++ piece) rest := by
  induction piece generalizing before with
  | nil => rw [List.append_nil]; rfl
  | cons c piece ih =>
      rw [List.cons_append, placesBehind_cons, ih, placesIn, List.append_assoc]
      rfl

theorem places_append (first second : List Char) :
    places (first ++ second) = placesIn [] first second ++ placesBehind first second :=
  placesBehind_append [] first second

/-- A place of a text is determined by its offset. -/
theorem eq_between_of_mem_places {before rest : List Char} {place : Cursor}
    (hplace : place ∈ places (before ++ rest)) (hoffset : place.offset = byteSize before) :
    place = between before rest := by
  obtain ⟨piece, hreads⟩ := mem_places_iff.mp hplace
  obtain rfl : before = piece := by
    apply eq_of_append_eq_append hreads.rest_eq
    rw [← hoffset, hreads.offset_eq]
    exact Nat.zero_add _
  exact hreads.stop_unique (reads_between [] before rest)

theorem exists_eq_between {text : List Char} {place : Cursor} (hplace : place ∈ places text) :
    ∃ before rest, text = before ++ rest ∧ place = between before rest := by
  obtain ⟨before, htext, hoffset⟩ := eq_append_of_mem_places hplace
  rw [htext] at hplace
  exact ⟨before, place.rest, htext, eq_between_of_mem_places hplace hoffset⟩

theorem eq_of_offset_eq {text : List Char} {place place' : Cursor} (hplace : place ∈ places text)
    (hplace' : place' ∈ places text) (hoffset : place.offset = place'.offset) : place = place' := by
  obtain ⟨before, rest, rfl, rfl⟩ := exists_eq_between hplace
  exact (eq_between_of_mem_places hplace' hoffset.symm).symm

theorem between_mem_places (before rest : List Char) :
    between before rest ∈ places (before ++ rest) :=
  mem_places_iff.mpr ⟨before, reads_between [] before rest⟩

/-- A place of a text inside a piece of it cuts the piece. -/
theorem exists_cut {before rest : List Char} {place stop : Cursor}
    (hplace : place ∈ places (before ++ rest)) (hstop : stop ∈ places (before ++ rest))
    (hle : place.offset ≤ byteSize before) (hlt : byteSize before < stop.offset) :
    ∃ lead ahead c behind, before = lead ++ ahead ∧ place = between lead (ahead ++ rest) ∧
      place.Reads ahead (between before rest) ∧ (between before rest).Reads (c :: behind) stop := by
  obtain ⟨ahead, hahead⟩ := exists_reads_of_offset_le hplace (between_mem_places before rest) hle
  obtain ⟨behind, hbehind⟩ :=
    exists_reads_of_offset_le (between_mem_places before rest) hstop (Nat.le_of_lt hlt)
  obtain ⟨c, behind, rfl⟩ := List.exists_cons_of_ne_nil (show behind ≠ [] by
    rintro rfl
    rw [hbehind.eq_of_nil] at hlt
    exact Nat.lt_irrefl _ hlt)
  obtain ⟨lead, htext, hoffset⟩ := eq_append_of_mem_places hplace
  have hrest : place.rest = ahead ++ rest := hahead.rest_eq
  rw [hrest, ← List.append_assoc] at htext
  have hbefore := List.append_cancel_right htext
  refine ⟨lead, ahead, c, behind, hbefore, ?_, hahead, hbehind⟩
  rw [hbefore, List.append_assoc] at hplace
  exact eq_between_of_mem_places hplace hoffset

end Cursor

theorem isWordChar_of_isBlank : ∀ c, isBlank c = true → isWordChar c = false :=
  forall_isBlank_not (by decide +kernel)

/-- Two parts of a text, and blanks to be put in between them. -/
structure Widening where
  before : List Char
  gap : List Char
  after : List Char
  gap_blank : ∀ c ∈ gap, isBlank c = true
  before_blank : ∀ c, before.getLast? = some c → isBlank c = true

namespace Widening

open Cursor

/-- The text without the blanks. -/
def narrow (w : Widening) : List Char := w.before ++ w.after

/-- The text with the blanks. -/
def wide (w : Widening) : List Char := w.before ++ (w.gap ++ w.after)

/-- The place of the narrow text where the blanks are put in. -/
def seam (w : Widening) : Cursor := between w.before w.after

/-- Places of the narrow and the wide text that stand for each other. -/
inductive Twin (w : Widening) : Cursor → Cursor → Prop
  | ahead {first second : List Char} {c : Char} (hsplit : w.before = first ++ c :: second) :
      w.Twin (between first (c :: (second ++ w.after)))
        (between first (c :: (second ++ (w.gap ++ w.after))))
  | behind {first second : List Char} (hsplit : w.after = first ++ second) :
      w.Twin (between (w.before ++ first) second) (between (w.before ++ (w.gap ++ first)) second)

/-- Places of the wide text in front of a blank that is put in. -/
inductive InGap (w : Widening) : Cursor → Prop
  | mk {first second : List Char} {c : Char} (hsplit : w.gap = first ++ c :: second) :
      w.InGap (between (w.before ++ first) (c :: (second ++ w.after)))

/-- Places that are twins, or the seam and a place in the gap. -/
def Near (w : Widening) (place place' : Cursor) : Prop :=
  w.Twin place place' ∨ (place = w.seam ∧ w.InGap place')

variable {w : Widening} {place place' stop stop' : Cursor}

theorem isBlank_of_before_eq {first : List Char} {c : Char} (h : w.before = first ++ [c]) :
    isBlank c = true :=
  w.before_blank c (by rw [h, List.getLast?_concat])

theorem isBlank_of_gap_eq {first second : List Char} {c : Char} (h : w.gap = first ++ c :: second) :
    isBlank c = true :=
  w.gap_blank c (by rw [h]; exact List.mem_append_right _ List.mem_cons_self)

theorem twin_seam (w : Widening) : w.Twin w.seam (between (w.before ++ w.gap) w.after) := by
  have h : w.Twin (between (w.before ++ []) w.after) (between (w.before ++ (w.gap ++ [])) w.after) :=
    .behind rfl
  rwa [List.append_nil, List.append_nil] at h

theorem near_seam (w : Widening) : w.Near w.seam (between w.before (w.gap ++ w.after)) := by
  cases hgap : w.gap with
  | nil =>
      have h := w.twin_seam
      rw [hgap, List.append_nil] at h
      exact .inl h
  | cons c rest =>
      have h : w.InGap (between (w.before ++ []) (c :: (rest ++ w.after))) := .mk hgap
      rw [List.append_nil] at h
      exact .inr ⟨rfl, h⟩

/-! ## One step -/

/-- At twins the same character follows, and the places past it are near to each other. -/
theorem Twin.step (h : w.Twin place place') :
    (place.rest = [] ∧ place'.rest = []) ∨
      ∃ c rest rest', place.rest = c :: rest ∧ place'.rest = c :: rest' ∧
        (w.Twin (place.past c rest) (place'.past c rest') ∨
          (isBlank c = true ∧ place.past c rest = w.seam ∧
            place'.past c rest' = between w.before (w.gap ++ w.after))) := by
  cases h with
  | @ahead first second c hsplit =>
      refine .inr ⟨c, _, _, rfl, rfl, ?_⟩
      rw [past_between, past_between]
      cases second with
      | nil => exact .inr ⟨isBlank_of_before_eq hsplit, by rw [← hsplit]; exact ⟨rfl, rfl⟩⟩
      | cons d second => exact .inl (.ahead (by rw [hsplit, List.append_assoc]; rfl))
  | @behind first second hsplit =>
      cases second with
      | nil => exact .inl ⟨rfl, rfl⟩
      | cons c second =>
          refine .inr ⟨c, _, _, rfl, rfl, .inl ?_⟩
          rw [past_between, past_between, List.append_assoc, List.append_assoc, List.append_assoc]
          exact .behind (by rw [hsplit, List.append_assoc]; rfl)

theorem Twin.precedes_eq (h : w.Twin place place') (ok : Char → Bool) :
    place.precedes ok = place'.precedes ok := by
  rcases h.step with ⟨hrest, hrest'⟩ | ⟨c, rest, rest', hrest, hrest', -⟩ <;>
    simp [precedes, hrest, hrest']

theorem Twin.isAtEnd_eq (h : w.Twin place place') : place.isAtEnd = place'.isAtEnd := by
  rcases h.step with ⟨hrest, hrest'⟩ | ⟨c, rest, rest', hrest, hrest', -⟩ <;>
    simp [isAtEnd, hrest, hrest']

section

variable {ok : Char → Bool} (hok : ∀ c, isBlank c = true → ok c = false)

include hok

theorem any_getLast?_eq_false (w : Widening) {piece : List Char} (hpiece : ∀ c ∈ piece, isBlank c = true) :
    (w.before ++ piece).getLast?.any ok = false := by
  rw [List.getLast?_append]
  cases hpieceLast : piece.getLast? with
  | some c => exact hok c (hpiece c (List.mem_of_getLast? hpieceLast))
  | none =>
      cases hlast : w.before.getLast? with
      | none => rfl
      | some c => exact hok c (w.before_blank c hlast)

/-- At the twin of a place stands the same character before it, or blanks stand before both. -/
theorem Twin.before_any_eq (h : w.Twin place place') : place.before.any ok = place'.before.any ok := by
  cases h with
  | ahead hsplit => rfl
  | @behind first second hsplit =>
      cases first with
      | nil =>
          rw [List.append_nil]
          have hseam := any_getLast?_eq_false hok w (List.forall_mem_nil _)
          rw [List.append_nil] at hseam ⊢
          exact hseam.trans (any_getLast?_eq_false hok w w.gap_blank).symm
      | cons c first =>
          simp only [between, List.getLast?_append, List.getLast?_cons, Option.some_or]

theorem InGap.before_any_eq_false (h : w.InGap place) : place.before.any ok = false := by
  cases h with
  | @mk first second c hsplit =>
      apply any_getLast?_eq_false hok
      intro d hd
      exact w.gap_blank d (by rw [hsplit]; exact List.mem_append_left _ hd)

theorem InGap.precedes_eq_false (h : w.InGap place) : place.precedes ok = false := by
  cases h with
  | mk hsplit => exact hok _ (isBlank_of_gap_eq hsplit)

end

theorem Near.twin_of_before (h : w.Near place place') {c : Char} (hbefore : place'.before = some c)
    (hc : isBlank c = false) : w.Twin place place' := by
  rcases h with h | ⟨-, h⟩
  · exact h
  · have hnone := h.before_any_eq_false fun d hd => (Bool.not_eq_false' (isBlank d)).mpr hd
    rw [hbefore, Option.any_some, hc] at hnone
    cases hnone

theorem Near.twin_of_rest (h : w.Near place place') {c : Char} {rest : List Char}
    (hrest : place'.rest = c :: rest) (hc : isBlank c = false) : w.Twin place place' := by
  rcases h with h | ⟨-, h⟩
  · exact h
  · have hnone := h.precedes_eq_false fun d hd => (Bool.not_eq_false' (isBlank d)).mpr hd
    rw [precedes, hrest, List.head?_cons, Option.any_some, hc] at hnone
    cases hnone

theorem Twin.isAtWordBoundary_eq (h : w.Twin place place') :
    place.isAtWordBoundary = place'.isAtWordBoundary := by
  rw [Cursor.isAtWordBoundary, Cursor.isAtWordBoundary, h.before_any_eq isWordChar_of_isBlank,
    h.precedes_eq]

theorem InGap.isAtWordBoundary_eq_false (h : w.InGap place) : place.isAtWordBoundary = false := by
  rw [Cursor.isAtWordBoundary, h.before_any_eq_false isWordChar_of_isBlank,
    h.precedes_eq_false isWordChar_of_isBlank]
  rfl

theorem InGap.isAtEnd_eq_false (h : w.InGap place) : place.isAtEnd = false := by
  cases h with
  | mk hsplit => rfl

/-! ## Offsets -/

/-- The offset in the wide text of the place that stands for the one at an offset. -/
def shift (w : Widening) (offset : Nat) : Nat :=
  if offset < byteSize w.before then offset else offset + byteSize w.gap

theorem shift_lt_shift_iff (w : Widening) {offset offset' : Nat} :
    w.shift offset < w.shift offset' ↔ offset < offset' := by
  unfold shift
  split <;> split <;> omega

theorem shift_le_shift_iff (w : Widening) {offset offset' : Nat} :
    w.shift offset ≤ w.shift offset' ↔ offset ≤ offset' := by
  rw [← Nat.not_lt, ← Nat.not_lt, w.shift_lt_shift_iff]

theorem shift_inj (w : Widening) {offset offset' : Nat} :
    w.shift offset = w.shift offset' ↔ offset = offset' := by
  unfold shift
  split <;> split <;> omega

theorem Twin.offset_eq (h : w.Twin place place') : place'.offset = w.shift place.offset := by
  cases h with
  | @ahead first second c hsplit =>
      have hlt : byteSize first < byteSize w.before := by
        have := byteSize_cons_pos c second
        rw [hsplit, byteSize_append]
        omega
      exact (if_pos hlt).symm
  | @behind first second hsplit =>
      have hge : ¬byteSize (w.before ++ first) < byteSize w.before := by
        rw [byteSize_append]
        omega
      rw [between, between, shift, if_neg hge]
      simp only [byteSize_append]
      omega

/-- A stop and a place are ordered in the narrow text as they are in the wide one. -/
theorem Near.offset_le_iff (hstop : w.Near stop stop') (h : w.Twin place place') :
    stop.offset ≤ place.offset ↔ stop'.offset ≤ place'.offset := by
  rcases hstop with hstop | ⟨rfl, hstop⟩
  · rw [hstop.offset_eq, h.offset_eq, w.shift_le_shift_iff]
  · cases hstop with
    | @mk first second c hsplit =>
        have hgap : byteSize first < byteSize w.gap := by
          have := byteSize_cons_pos c second
          rw [hsplit, byteSize_append]
          omega
        rw [h.offset_eq, shift]
        simp only [seam, between, byteSize_append]
        split <;> omega

/-! ## The places of both texts -/

theorem forall₂_placesIn (w : Widening) {first second : List Char}
    (hsplit : w.before = first ++ second) :
    List.Forall₂ w.Twin (placesIn first second w.after)
      (placesIn first second (w.gap ++ w.after)) := by
  induction second generalizing first with
  | nil => exact .nil
  | cons c second ih => exact .cons (.ahead hsplit) (ih (by rw [hsplit, List.append_assoc]; rfl))

theorem inGap_of_mem_placesIn (w : Widening) {first second : List Char} (hsplit : w.gap = first ++ second)
    (h : place ∈ placesIn (w.before ++ first) second w.after) : w.InGap place := by
  induction second generalizing first with
  | nil => cases h
  | cons c second ih =>
      rcases List.mem_cons.mp h with rfl | h
      · exact .mk hsplit
      · rw [List.append_assoc] at h
        exact ih (by rw [hsplit, List.append_assoc]; rfl) h

theorem forall₂_placesBehind (w : Widening) {first second : List Char}
    (hsplit : w.after = first ++ second) :
    List.Forall₂ w.Twin (placesBehind (w.before ++ first) second)
      (placesBehind (w.before ++ (w.gap ++ first)) second) := by
  induction second generalizing first with
  | nil => exact .cons (.behind hsplit) .nil
  | cons c second ih =>
      rw [placesBehind_cons, placesBehind_cons, List.append_assoc, List.append_assoc,
        List.append_assoc]
      exact .cons (.behind hsplit) (ih (by rw [hsplit, List.append_assoc]; rfl))

theorem Twin.mem_places (h : w.Twin place place') :
    place ∈ Cursor.places (w.before ++ w.after) ∧
      place' ∈ Cursor.places (w.before ++ (w.gap ++ w.after)) := by
  cases h with
  | @ahead first second c hsplit =>
      rw [hsplit, List.append_assoc, List.append_assoc]
      exact ⟨between_mem_places _ _, between_mem_places _ _⟩
  | @behind first second hsplit =>
      have h := between_mem_places (w.before ++ first) second
      have h' := between_mem_places (w.before ++ (w.gap ++ first)) second
      rw [List.append_assoc, ← hsplit] at h
      rw [List.append_assoc, List.append_assoc, ← hsplit] at h'
      exact ⟨h, h'⟩

theorem InGap.mem_places (h : w.InGap place) :
    place ∈ Cursor.places (w.before ++ (w.gap ++ w.after)) := by
  cases h with
  | @mk first second c hsplit =>
      have h := between_mem_places (w.before ++ first) (c :: (second ++ w.after))
      rwa [List.append_assoc, ← List.cons_append, ← List.append_assoc first, ← hsplit] at h

/-- The places of the wide text are the twins of those of the narrow one, and the gap between
them. -/
theorem exists_places (w : Widening) :
    places w.narrow = placesIn [] w.before w.after ++ placesBehind w.before w.after ∧
      ∃ inGap behind, places w.wide =
          placesIn [] w.before (w.gap ++ w.after) ++ (inGap ++ behind) ∧
        List.Forall₂ w.Twin (placesIn [] w.before w.after)
          (placesIn [] w.before (w.gap ++ w.after)) ∧
        (∀ place ∈ inGap, w.InGap place) ∧
        List.Forall₂ w.Twin (placesBehind w.before w.after) behind := by
  refine ⟨places_append _ _, placesIn w.before w.gap w.after,
    placesBehind (w.before ++ w.gap) w.after, ?_, w.forall₂_placesIn rfl, ?_, ?_⟩
  · rw [wide, places_append, placesBehind_append]
  · intro place hplace
    apply w.inGap_of_mem_placesIn (List.nil_append w.gap).symm
    rwa [List.append_nil]
  · have h := w.forall₂_placesBehind (List.nil_append w.after).symm
    rwa [List.append_nil, List.append_nil] at h

end Widening

/-! ## Pieces of both texts -/

/-- The second text is the first one, widened by blanks or equal. -/
def Widens (narrow wide : List Char) : Prop :=
  ∃ w : Widening, narrow = w.narrow ∧ wide = w.wide

namespace Widens

theorem refl (text : List Char) : Widens text text :=
  ⟨⟨[], [], text, by simp, by simp⟩, rfl, rfl⟩

/-- A text without blanks is no wider than another. -/
theorem eq_of_forall {narrow wide : List Char} (h : Widens narrow wide)
    (hwide : ∀ c ∈ wide, isBlank c = false) : narrow = wide := by
  obtain ⟨w, rfl, rfl⟩ := h
  have hgap : w.gap = [] := by
    apply List.eq_nil_iff_forall_not_mem.mpr
    intro c hc
    have hblank := w.gap_blank c hc
    rw [hwide c (List.mem_append_right _ (List.mem_append_left _ hc))] at hblank
    cases hblank
  rw [Widening.narrow, Widening.wide, hgap, List.nil_append]

end Widens

namespace Widening

open Cursor

variable {w : Widening} {place place' stop stop' : Cursor} {piece piece' : List Char}

/-- What follows on places that are near to each other. -/
inductive Rests (w : Widening) : List Char → List Char → Prop
  | ahead {rest : List Char} (hne : rest ≠ []) (hsuffix : rest <:+ w.before) :
      w.Rests (rest ++ w.after) (rest ++ (w.gap ++ w.after))
  | seam {rest : List Char} (hne : rest ≠ []) (hsuffix : rest <:+ w.gap) :
      w.Rests w.after (rest ++ w.after)
  | behind {rest : List Char} (hsuffix : rest <:+ w.after) : w.Rests rest rest

theorem Near.rests (h : w.Near place place') : w.Rests place.rest place'.rest := by
  rcases h with h | ⟨rfl, h⟩
  · cases h with
    | ahead hsplit => exact .ahead (List.cons_ne_nil _ _) ⟨_, hsplit.symm⟩
    | behind hsplit => exact .behind ⟨_, hsplit.symm⟩
  · cases h with
    | mk hsplit => exact .seam (List.cons_ne_nil _ _) ⟨_, hsplit.symm⟩

theorem eq_nil_of_append_suffix {first second : List Char} (h : first ++ second <:+ second) :
    first = [] := by
  have hlength := h.length_le
  rw [List.length_append] at hlength
  exact List.length_eq_zero_iff.mp (by omega)

theorem isBlank_of_suffix {rest : List Char} (hsuffix : rest <:+ w.before) :
    ∀ c, rest.getLast? = some c → isBlank c = true := by
  obtain ⟨first, hsplit⟩ := hsuffix
  intro c hc
  exact w.before_blank c (by rw [← hsplit, List.getLast?_append, hc, Option.some_or])

theorem widens_ahead {inner more more' : List Char} (hsuffix : inner <:+ w.before)
    (hstop : w.Rests more more') (hpiece : inner ++ w.after = piece ++ more)
    (hpiece' : inner ++ (w.gap ++ w.after) = piece' ++ more') : Widens piece piece' := by
  have hblank := isBlank_of_suffix hsuffix
  cases hstop with
  | ahead hne' hsuffix' =>
      rw [← List.append_assoc] at hpiece
      rw [← List.append_assoc piece'] at hpiece'
      have hsame := List.append_cancel_right hpiece
      rw [hsame] at hpiece'
      rw [List.append_cancel_right (List.append_cancel_right hpiece')]
      exact .refl _
  | seam hne' hsuffix' =>
      obtain rfl := List.append_cancel_right hpiece
      obtain ⟨first, hgap⟩ := hsuffix'
      rw [← hgap, ← List.append_assoc, ← List.append_assoc, ← List.append_assoc] at hpiece'
      have hsame := List.append_cancel_right (List.append_cancel_right hpiece')
      refine ⟨⟨inner, first, [], ?_, hblank⟩, (List.append_nil _).symm, ?_⟩
      · intro c hc
        exact w.gap_blank c (by rw [← hgap]; exact List.mem_append_left _ hc)
      · rw [wide, List.append_nil, hsame]
  | behind hsuffix' =>
      obtain ⟨first, hafter⟩ := hsuffix'
      rw [← hafter, ← List.append_assoc] at hpiece hpiece'
      rw [← List.append_assoc] at hpiece'
      refine ⟨⟨inner, w.gap, first, w.gap_blank, hblank⟩, ?_, ?_⟩
      · exact (List.append_cancel_right hpiece).symm
      · rw [wide, ← List.append_cancel_right hpiece', List.append_assoc]

theorem widens_seam {inner more more' : List Char} (hsuffix : inner <:+ w.gap)
    (hstop : w.Rests more more') (hpiece : w.after = piece ++ more)
    (hpiece' : inner ++ w.after = piece' ++ more') : Widens piece piece' := by
  have hblank : ∀ c ∈ inner, isBlank c = true := fun c hc => w.gap_blank c (hsuffix.subset hc)
  cases hstop with
  | ahead hne' hsuffix' => exact (hne' (eq_nil_of_append_suffix ⟨piece, hpiece.symm⟩)).elim
  | seam hne' hsuffix' =>
      obtain rfl : piece = [] := List.self_eq_append_left.mp hpiece
      rw [← List.append_assoc] at hpiece'
      have hsame := List.append_cancel_right hpiece'
      refine ⟨⟨[], piece', [], ?_, by simp⟩, rfl, (List.append_nil _).symm⟩
      intro c hc
      exact hblank c (by rw [hsame]; exact List.mem_append_left _ hc)
  | behind hsuffix' =>
      rw [hpiece, ← List.append_assoc] at hpiece'
      exact ⟨⟨[], inner, piece, hblank, by simp⟩, rfl, (List.append_cancel_right hpiece').symm⟩

theorem widens_behind {inner more more' : List Char} (hsuffix : inner <:+ w.after)
    (hstop : w.Rests more more') (hpiece : inner = piece ++ more)
    (hpiece' : inner = piece' ++ more') : Widens piece piece' := by
  cases hstop with
  | ahead hne' hsuffix' =>
      exact (hne' (eq_nil_of_append_suffix (.trans ⟨piece, hpiece.symm⟩ hsuffix))).elim
  | seam hne' hsuffix' =>
      exact (hne' (eq_nil_of_append_suffix (.trans ⟨piece', hpiece'.symm⟩ hsuffix))).elim
  | behind hsuffix' =>
      rw [hpiece] at hpiece'
      rw [List.append_cancel_right hpiece']
      exact .refl _

theorem widens_of_rests {rest rest' more more' : List Char} (hstart : w.Rests rest rest')
    (hstop : w.Rests more more') (hpiece : rest = piece ++ more)
    (hpiece' : rest' = piece' ++ more') : Widens piece piece' := by
  cases hstart with
  | ahead hne hsuffix => exact widens_ahead hsuffix hstop hpiece hpiece'
  | seam hne hsuffix => exact widens_seam hsuffix hstop hpiece hpiece'
  | behind hsuffix => exact widens_behind hsuffix hstop hpiece hpiece'

/-- The pieces between places that are near to each other are equal but for blanks. -/
theorem Near.widens (hstart : w.Near place place') (hstop : w.Near stop stop')
    (hreads : place.Reads piece stop) (hreads' : place'.Reads piece' stop') :
    Widens piece piece' :=
  widens_of_rests hstart.rests hstop.rests hreads.rest_eq hreads'.rest_eq

end Widening

end LayerLint.Text
