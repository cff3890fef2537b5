import LayerLint.Proofs.Text.Bytes
import LayerLint.Proofs.Text.Reading
import Mathlib.Data.Prod.Lex
import Mathlib.Order.Bounds.Basic
import Mathlib.Order.Monotone.Basic

/-! # Positions and boundaries

Reading on moves a position to the right or to a later line, so that positions tell the boundaries
of a text apart and keep their order. An offset inside a character stands for the boundary in front
of it. From a position its boundary is found again by skipping lines and then characters of one
line.
-/

namespace LayerLint.Text

/-! ## Boundaries -/

/-- The offsets at which no character is cut, from the beginning of the text to its end. -/
def boundaries (text : String) : Set Nat :=
  {offset | (String.Pos.Raw.mk offset).IsValid text}

theorem utf8ByteSize_eq (text : String) : text.utf8ByteSize = byteSize text.toList := by
  rw [← length_encode, ← bytes_eq_encode]
  rfl

theorem mem_boundaries_iff {text : String} {offset : Nat} :
    offset ∈ boundaries text ↔ ∃ first, first <+: text.toList ∧ offset = byteSize first := by
  rw [boundaries, Set.mem_ofPred_eq, String.Pos.Raw.isValid_iff_exists_append]
  constructor
  · rintro ⟨first, second, rfl, heq⟩
    have hsize : offset = first.utf8ByteSize := congrArg String.Pos.Raw.byteIdx heq
    exact ⟨first.toList, by simp, hsize.trans (utf8ByteSize_eq first)⟩
  · rintro ⟨first, ⟨second, heq⟩, rfl⟩
    refine ⟨String.ofList first, String.ofList second, ?_, (rawEndPos_ofList first).symm⟩
    rw [← String.ofList_append, heq, String.ofList_toList]

/-- The longest beginning that some bytes hold ends at the last boundary among them. -/
theorem isGreatest_byteSize_prefixWithin (text : String) (offset : Nat) :
    IsGreatest {place ∈ boundaries text | place ≤ offset}
      (byteSize (prefixWithin offset text.toList)) := by
  refine ⟨⟨mem_boundaries_iff.mpr ⟨_, prefixWithin_isPrefixOf _ _, rfl⟩,
    byteSize_prefixWithin_le _ _⟩, ?_⟩
  rintro place ⟨hplace, hle⟩
  obtain ⟨first, ⟨second, heq⟩, rfl⟩ := mem_boundaries_iff.mp hplace
  rw [← heq, prefixWithin_append_of_le hle, byteSize_append]
  exact Nat.le_add_right _ _

namespace Position

/-! ## The order of positions -/

/-- A position among all positions, by its line and then by its column. -/
def order (position : Position) : Nat ×ₗ Nat := toLex (position.line, position.column)

theorem order_lt_advance (position : Position) (c : Char) :
    position.order < (position.advance c).order := by
  rw [order, order, Prod.Lex.toLex_lt_toLex, advance]
  split
  · exact .inl (Nat.lt_succ_self _)
  · exact .inr ⟨rfl, Nat.lt_succ_self _⟩

/-- Reading on leads behind the position. -/
theorem order_lt_foldl (position : Position) {text : List Char} (hne : text ≠ []) :
    position.order < (text.foldl advance position).order := by
  induction text generalizing position with
  | nil => exact (hne rfl).elim
  | cons c rest ih =>
      rw [List.foldl_cons]
      by_cases hrest : rest = []
      · subst hrest
        exact order_lt_advance position c
      · exact (order_lt_advance position c).trans (ih _ hrest)

theorem ofOffset_byteSize {first text : List Char} (h : first <+: text) :
    ofOffset text (byteSize first) = first.foldl advance start := by
  obtain ⟨second, rfl⟩ := h
  rw [ofOffset, read_eq_foldl, prefixWithin_byteSize]

theorem strictMonoOn_ofOffset (text : String) :
    StrictMonoOn (fun offset => (ofOffset text.toList offset).order) (boundaries text) := by
  intro offset hoffset later hlater hlt
  obtain ⟨first, hfirst, rfl⟩ := mem_boundaries_iff.mp hoffset
  obtain ⟨second, hsecond, rfl⟩ := mem_boundaries_iff.mp hlater
  obtain ⟨more, rfl⟩ : first <+: second := by
    rcases List.prefix_or_prefix_of_prefix hfirst hsecond with hprefix | ⟨more, rfl⟩
    · exact hprefix
    · rw [byteSize_append] at hlt
      omega
  have hmore : more ≠ [] := by
    rintro rfl
    simp at hlt
  dsimp only
  rw [ofOffset_byteSize hfirst, ofOffset_byteSize hsecond, List.foldl_append]
  exact order_lt_foldl _ hmore

end Position

/-! ## From a position to its boundary -/

/-- The text behind its first line feeds, if it has so many. -/
def skipLines? : Nat → List Char → Option (List Char)
  | 0, text => some text
  | _ + 1, [] => none
  | count + 1, c :: rest => if c = '\n' then skipLines? count rest else skipLines? (count + 1) rest

/-- The text behind its first characters, if it has so many and none of them is a line feed. -/
def skipColumns? : Nat → List Char → Option (List Char)
  | 0, text => some text
  | _ + 1, [] => none
  | count + 1, c :: rest => if c = '\n' then none else skipColumns? count rest

variable {text rest : List Char} {count : Nat} {c : Char}

@[simp] theorem skipLines?_zero (text : List Char) : skipLines? 0 text = some text := by
  cases text <;> rfl

@[simp] theorem skipColumns?_zero (text : List Char) : skipColumns? 0 text = some text := by
  cases text <;> rfl

theorem skipLines?_succ (count : Nat) (text : List Char) :
    skipLines? (count + 1) text = (skipLines? count text).bind (skipLines? 1) := by
  induction text generalizing count with
  | nil => cases count <;> rfl
  | cons c rest ih =>
      cases count with
      | zero => rfl
      | succ count =>
          rw [skipLines?, skipLines?]
          split
          · exact ih count
          · exact ih (count + 1)

/-- The line feed that is met next ends the line. -/
theorem skipLines?_one (h : skipColumns? count text = some ('\n' :: rest)) :
    skipLines? 1 text = some rest := by
  induction text generalizing count with
  | nil => cases count <;> cases h
  | cons first others ih =>
      cases count with
      | zero =>
          cases h
          simp [skipLines?]
      | succ count =>
          rw [skipColumns?, Option.ite_none_left_eq_some] at h
          rw [skipLines?, if_neg h.1]
          exact ih h.2

theorem skipColumns?_succ (h : skipColumns? count text = some (c :: rest)) (hc : c ≠ '\n') :
    skipColumns? (count + 1) text = some rest := by
  induction text generalizing count with
  | nil => cases count <;> cases h
  | cons first others ih =>
      cases count with
      | zero =>
          cases h
          simp [skipColumns?, hc]
      | succ count =>
          rw [skipColumns?, Option.ite_none_left_eq_some] at h
          rw [skipColumns?, if_neg h.1]
          exact ih h.2

namespace Position

variable {position : Position}

/-- The text from a position on: the lines before it are skipped, and then the characters to the
left of it, which must not cross another line feed. -/
def rest? (position : Position) (text : List Char) : Option (List Char) :=
  (skipLines? (position.line - 1) text).bind (skipColumns? (position.column - 1))

/-- The number of bytes that are skipped on the way to a position. -/
def offset? (position : Position) (text : List Char) : Option Nat :=
  (position.rest? text).map fun rest => byteSize text - byteSize rest

/-- Reading a character off the rest leads to the next position. -/
theorem rest?_advance (hline : 1 ≤ position.line) (hcolumn : 1 ≤ position.column)
    (h : position.rest? text = some (c :: rest)) :
    (position.advance c).rest? text = some rest := by
  obtain ⟨row, hrow, hrest⟩ := Option.bind_eq_some_iff.mp h
  rw [rest?, advance]
  split
  next hc =>
    subst hc
    rw [Nat.add_sub_cancel, ← Nat.sub_add_cancel hline, skipLines?_succ, hrow, Option.bind_some,
      skipLines?_one hrest, Option.bind_some]
    exact skipColumns?_zero rest
  next hc =>
    rw [Nat.add_sub_cancel, ← Nat.sub_add_cancel hcolumn, hrow, Option.bind_some]
    exact skipColumns?_succ hrest hc

theorem rest?_foldl {piece : List Char} (hline : 1 ≤ position.line) (hcolumn : 1 ≤ position.column)
    (h : position.rest? text = some (piece ++ rest)) :
    (piece.foldl advance position).rest? text = some rest := by
  induction piece generalizing position with
  | nil => exact h
  | cons c more ih =>
      have hnext : 1 ≤ (position.advance c).line ∧ 1 ≤ (position.advance c).column := by
        rw [advance]
        split
        · exact ⟨Nat.le_add_left 1 _, Nat.le_refl 1⟩
        · exact ⟨hline, Nat.le_add_left 1 _⟩
      exact ih hnext.1 hnext.2 (rest?_advance hline hcolumn h)

/-- From the position of an offset one finds the boundary that it stands for. -/
theorem offset?_ofOffset (text : List Char) (offset : Nat) :
    (ofOffset text offset).offset? text = some (byteSize (prefixWithin offset text)) := by
  obtain ⟨rest, hrest⟩ := prefixWithin_isPrefixOf offset text
  have hstart : start.rest? text = some (prefixWithin offset text ++ rest) := by
    rw [hrest, rest?, start]
    simp
  have hsize : byteSize text = byteSize (prefixWithin offset text) + byteSize rest := by
    rw [← byteSize_append, hrest]
  rw [ofOffset, read_eq_foldl, offset?, rest?_foldl (Nat.le_refl 1) (Nat.le_refl 1) hstart,
    Option.map_some, hsize, Nat.add_sub_cancel]

/-- Positions of boundaries are in the order of the boundaries and differ from one another. The
position of any offset is that of the last boundary up to it, so beyond the text that of its end,
and skipping lines and then characters of a line leads from it to that boundary. -/
theorem ofOffset_orders_boundaries (source : String) :
    StrictMonoOn (fun offset => (ofOffset source.toList offset).order) (boundaries source) ∧
      Set.InjOn (ofOffset source.toList) (boundaries source) ∧
      (∀ offset, ∃ boundary, IsGreatest {place ∈ boundaries source | place ≤ offset} boundary ∧
        ofOffset source.toList offset = ofOffset source.toList boundary ∧
        (ofOffset source.toList offset).offset? source.toList = some boundary) ∧
      ∀ excess, ofOffset source.toList (source.utf8ByteSize + excess) =
        ofOffset source.toList source.utf8ByteSize := by
  refine ⟨strictMonoOn_ofOffset source, ?_, ?_, ?_⟩
  · intro offset hoffset other hother heq
    exact (strictMonoOn_ofOffset source).injOn hoffset hother (congrArg order heq)
  · intro offset
    refine ⟨_, isGreatest_byteSize_prefixWithin source offset, ?_, offset?_ofOffset _ _⟩
    rw [ofOffset_byteSize (prefixWithin_isPrefixOf _ _), ofOffset, read_eq_foldl]
  · intro excess
    have hwhole (excess : Nat) : prefixWithin (byteSize source.toList + excess) source.toList =
        source.toList := by
      have hheld := prefixWithin_append_of_le (Nat.le_add_right (byteSize source.toList) excess) []
      simpa [prefixWithin] using hheld
    rw [utf8ByteSize_eq, ofOffset_eq, ofOffset_eq, hwhole, ← Nat.add_zero (byteSize source.toList),
      hwhole]

-- a character of two bytes: its inside stands for its beginning, and the line goes on behind it
example : (List.range 7).map (ofOffset ['a', 'é', '\n', 'b']) =
    [⟨1, 1⟩, ⟨1, 2⟩, ⟨1, 2⟩, ⟨1, 3⟩, ⟨2, 1⟩, ⟨2, 2⟩, ⟨2, 2⟩] := by decide

end Position

end LayerLint.Text
