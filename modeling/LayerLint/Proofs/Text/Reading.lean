import LayerLint.Text.Cursor

/-! # Reading from one place to another

Two places of a text, the first one not behind the second, have a piece of the text between them.
That piece, the number of its bytes and the character before each place go together.
-/

namespace LayerLint.Text.Cursor

/-- Reading a piece of text leads from one place to another. -/
structure Reads (place : Cursor) (piece : List Char) (stop : Cursor) : Prop where
  rest_eq : place.rest = piece ++ stop.rest
  offset_eq : stop.offset = place.offset + byteSize piece
  before_eq : stop.before = piece.getLast?.or place.before

variable {place middle stop : Cursor} {text : List Char}

namespace Reads

theorem refl (place : Cursor) : place.Reads [] place := ⟨rfl, rfl, rfl⟩

theorem stop_unique {piece : List Char} (hmiddle : place.Reads piece middle)
    (hstop : place.Reads piece stop) : middle = stop := by
  have hrest : middle.rest = stop.rest :=
    List.append_cancel_left (hmiddle.rest_eq.symm.trans hstop.rest_eq)
  have hoffset : middle.offset = stop.offset := hmiddle.offset_eq.trans hstop.offset_eq.symm
  have hbefore : middle.before = stop.before := hmiddle.before_eq.trans hstop.before_eq.symm
  cases middle
  cases stop
  simp_all

theorem eq_of_nil (h : place.Reads [] stop) : stop = place := h.stop_unique (refl place)

theorem append {first second : List Char} (hfirst : place.Reads first middle)
    (hsecond : middle.Reads second stop) : place.Reads (first ++ second) stop where
  rest_eq := by rw [hfirst.rest_eq, hsecond.rest_eq, List.append_assoc]
  offset_eq := by rw [hsecond.offset_eq, hfirst.offset_eq, byteSize_append, Nat.add_assoc]
  before_eq := by
    rw [hsecond.before_eq, hfirst.before_eq, List.getLast?_append, Option.or_assoc]

theorem past {c : Char} {rest : List Char} (h : place.rest = c :: rest) :
    place.Reads [c] (place.past c rest) := ⟨h, rfl, rfl⟩

theorem eq_past {c : Char} (h : place.Reads [c] stop) : stop = place.past c stop.rest :=
  h.stop_unique (past h.rest_eq)

theorem tail {c : Char} {piece : List Char} (h : place.Reads (c :: piece) stop) :
    (place.past c (piece ++ stop.rest)).Reads piece stop where
  rest_eq := rfl
  offset_eq := by rw [h.offset_eq, byteSize_cons, Cursor.past, Nat.add_assoc]
  before_eq := by
    rw [h.before_eq, Cursor.past, List.getLast?_cons]
    cases piece.getLast? <;> rfl

/-- A place on the way of a reading: the first part of it leads there. -/
theorem of_append {first second : List Char} (h : place.Reads (first ++ second) stop) :
    ∃ middle, place.Reads first middle ∧ middle.Reads second stop := by
  refine ⟨⟨first.getLast?.or place.before, place.offset + byteSize first, second ++ stop.rest⟩,
    ⟨by rw [h.rest_eq, List.append_assoc], rfl, rfl⟩, rfl, ?_, ?_⟩
  · rw [h.offset_eq, byteSize_append, Nat.add_assoc]
  · rw [h.before_eq, List.getLast?_append, Option.or_assoc]

theorem offset_le {piece : List Char} (h : place.Reads piece stop) :
    place.offset ≤ stop.offset := by
  rw [h.offset_eq]
  exact Nat.le_add_right _ _

theorem unique {first second : List Char} (hfirst : place.Reads first stop)
    (hsecond : place.Reads second stop) : first = second :=
  List.append_cancel_right (hfirst.rest_eq.symm.trans hsecond.rest_eq)

end Reads

/-! ## The places of a text -/

theorem mem_placesFrom_iff {before : Option Char} {offset : Nat} :
    place ∈ placesFrom before offset text ↔
      ∃ piece, Reads ⟨before, offset, text⟩ piece place := by
  induction text generalizing before offset with
  | nil =>
      rw [placesFrom, List.mem_singleton]
      constructor
      · rintro rfl
        exact ⟨[], .refl _⟩
      · rintro ⟨piece, h⟩
        obtain ⟨rfl, -⟩ := List.nil_eq_append_iff.mp h.rest_eq
        exact h.eq_of_nil
  | cons c rest ih =>
      rw [placesFrom, List.mem_cons, ih]
      constructor
      · rintro (rfl | ⟨piece, h⟩)
        · exact ⟨[], .refl _⟩
        · exact ⟨c :: piece, (Reads.past rfl).append h⟩
      · rintro ⟨piece, h⟩
        cases piece with
        | nil => exact .inl h.eq_of_nil
        | cons d piece =>
            have heq := h.rest_eq
            rw [List.cons_append] at heq
            obtain ⟨rfl, rfl⟩ := List.cons.inj heq
            exact .inr ⟨piece, h.tail⟩

/-- The places of a text are those that reading from its beginning leads to. -/
theorem mem_places_iff :
    place ∈ places text ↔ ∃ piece, (start text).Reads piece place :=
  mem_placesFrom_iff

theorem mem_places_of_reads {piece : List Char} (hplace : place ∈ places text)
    (h : place.Reads piece stop) : stop ∈ places text := by
  obtain ⟨before, hbefore⟩ := mem_places_iff.mp hplace
  exact mem_places_iff.mpr ⟨before ++ piece, hbefore.append h⟩

/-- The places of a text are listed by strictly increasing offset. -/
theorem pairwise_offset_placesFrom (before : Option Char) (offset : Nat) (text : List Char) :
    (placesFrom before offset text).Pairwise fun first second => first.offset < second.offset := by
  induction text generalizing before offset with
  | nil => exact List.pairwise_singleton _ _
  | cons c rest ih =>
      refine List.pairwise_cons.mpr ⟨?_, ih (some c) (offset + c.utf8Size)⟩
      intro place hplace
      obtain ⟨piece, hreads⟩ := mem_placesFrom_iff.mp hplace
      exact Nat.lt_of_lt_of_le (Nat.lt_add_of_pos_right c.utf8Size_pos) hreads.offset_le

theorem eq_append_of_mem_places (h : place ∈ places text) :
    ∃ before, text = before ++ place.rest ∧ place.offset = byteSize before := by
  obtain ⟨before, hreads⟩ := mem_places_iff.mp h
  exact ⟨before, hreads.rest_eq, by rw [hreads.offset_eq]; exact Nat.zero_add _⟩

/-- In front of a word character a place is at a boundary unless it is behind another one. -/
theorem isAtWordBoundary_of_precedes (h : place.precedes isWordChar = true) :
    place.isAtWordBoundary = !place.before.any isWordChar := by
  rw [isAtWordBoundary, h, Bool.bne_true]

theorem eq_nil_of_byteSize_eq_zero {piece : List Char} (h : byteSize piece = 0) : piece = [] := by
  cases piece with
  | nil => rfl
  | cons c rest =>
      have := c.utf8Size_pos
      rw [byteSize_cons] at h
      omega

/-- Of two places of a text, reading leads from the one with the smaller offset to the other. -/
theorem exists_reads_of_offset_le (hplace : place ∈ places text) (hstop : stop ∈ places text)
    (hle : place.offset ≤ stop.offset) : ∃ piece, place.Reads piece stop := by
  obtain ⟨first, hfirst⟩ := mem_places_iff.mp hplace
  obtain ⟨second, hsecond⟩ := mem_places_iff.mp hstop
  have hlonger (piece : List Char) (heq : second = first ++ piece) :
      ∃ piece, place.Reads piece stop := by
    subst heq
    obtain ⟨middle, hmiddle, hpiece⟩ := hsecond.of_append
    exact ⟨piece, hfirst.stop_unique hmiddle ▸ hpiece⟩
  rcases List.append_eq_append_iff.mp (hfirst.rest_eq.symm.trans hsecond.rest_eq) with
    ⟨piece, rfl, -⟩ | ⟨piece, rfl, -⟩
  · exact hlonger piece rfl
  · refine hlonger [] ?_
    have hoffset := hfirst.offset_eq
    rw [byteSize_append] at hoffset
    have hnil : piece = [] := eq_nil_of_byteSize_eq_zero (by
      rw [hsecond.offset_eq] at hle
      omega)
    simp [hnil]

end LayerLint.Text.Cursor

namespace LayerLint.Text

theorem prefixWithin_zero (text : List Char) : prefixWithin 0 text = [] := by
  cases text with
  | nil => rfl
  | cons c rest => rw [prefixWithin, if_neg (Nat.not_le.mpr c.utf8Size_pos)]

/-- Beyond a beginning that the bytes hold, they hold as much as is left of them. -/
theorem prefixWithin_append_of_le {bytes : Nat} {first : List Char} (h : byteSize first ≤ bytes)
    (second : List Char) : prefixWithin bytes (first ++ second) =
      first ++ prefixWithin (bytes - byteSize first) second := by
  induction first generalizing bytes with
  | nil => rfl
  | cons c rest ih =>
      rw [byteSize_cons] at h
      rw [List.cons_append, prefixWithin, if_pos (by omega), ih (by omega), byteSize_cons,
        Nat.sub_sub]
      rfl

theorem prefixWithin_byteSize (first second : List Char) :
    prefixWithin (byteSize first) (first ++ second) = first := by
  rw [prefixWithin_append_of_le (Nat.le_refl _), Nat.sub_self, prefixWithin_zero, List.append_nil]

theorem prefixWithin_isPrefixOf (bytes : Nat) (text : List Char) :
    prefixWithin bytes text <+: text := by
  induction text generalizing bytes with
  | nil => exact List.nil_prefix
  | cons c rest ih =>
      rw [prefixWithin]
      split
      next => exact List.cons_prefix_cons.mpr ⟨rfl, ih _⟩
      next => exact List.nil_prefix

theorem byteSize_prefixWithin_le (bytes : Nat) (text : List Char) :
    byteSize (prefixWithin bytes text) ≤ bytes := by
  induction text generalizing bytes with
  | nil => exact Nat.zero_le _
  | cons c rest ih =>
      rw [prefixWithin]
      split
      next hfits =>
        have hrest := ih (bytes - c.utf8Size)
        rw [byteSize_cons]
        omega
      next => exact Nat.zero_le _

/-- A beginning of a text is determined by the number of its bytes. -/
theorem eq_of_append_eq_append {first second rest rest' : List Char}
    (h : first ++ rest = second ++ rest') (hsize : byteSize first = byteSize second) :
    first = second := by
  rw [← prefixWithin_byteSize first rest, h, hsize, prefixWithin_byteSize]

theorem byteSize_cons_pos (c : Char) (text : List Char) : 0 < byteSize (c :: text) := by
  have := c.utf8Size_pos
  rw [byteSize_cons]
  omega

/-- The characters of a piece are those that are read from its beginning to its end. -/
theorem Span.chars_eq_of_reads {span : Span} {piece : List Char}
    (h : span.start.Reads piece span.stop) : span.chars = piece := by
  rw [chars, h.offset_eq, Nat.add_sub_cancel_left, h.rest_eq, prefixWithin_byteSize]

end LayerLint.Text
