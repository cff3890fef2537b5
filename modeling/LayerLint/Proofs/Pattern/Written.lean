import LayerLint.Proofs.Pattern.Search

/-! # What a search leaves is written in the text

A piece that a match remembers stands in the searched text. So does a word without spaces that is
left when every match is replaced by a space: such a word lies between two of them.
-/

namespace LayerLint.Pattern

open Text (Cursor Span)

variable {pattern : Pattern} {text word : List Char} {start stop : Cursor} {captures : Captures}
  {found : Match} {name : String} {span : Span}

/-! ## Remembered pieces -/

theorem Accepts.exists_reads_of_mem (h : pattern.Accepts start captures stop)
    (hmem : (name, span) ∈ captures) :
    ∃ lead piece trail, start.Reads lead span.start ∧ span.start.Reads piece span.stop ∧
      span.stop.Reads trail stop := by
  induction h with
  | empty | one | long | short | boundary | finish => cases hmem
  | andThen hfirst hsecond ihfirst ihsecond =>
      rcases List.mem_append.mp hmem with hmem | hmem
      · obtain ⟨lead, piece, trail, hlead, hpiece, htrail⟩ := ihfirst hmem
        obtain ⟨more, hmore⟩ := hsecond.exists_reads
        exact ⟨lead, piece, trail ++ more, hlead, hpiece, htrail.append hmore⟩
      · obtain ⟨lead, piece, trail, hlead, hpiece, htrail⟩ := ihsecond hmem
        obtain ⟨more, hmore⟩ := hfirst.exists_reads
        exact ⟨more ++ lead, piece, trail, hmore.append hlead, hpiece, htrail⟩
  | orElseFirst h ih | orElseSecond h ih => exact ih hmem
  | named h ih =>
      rcases List.mem_cons.mp hmem with heq | hmem
      · obtain ⟨rfl, rfl⟩ := Prod.mk.inj heq
        obtain ⟨piece, hpiece⟩ := h.exists_reads
        exact ⟨[], piece, [], .refl _, hpiece, .refl _⟩
      · exact ih hmem

/-- A piece that is remembered of a text stands in it. -/
theorem chars_isInfix (hstart : start ∈ Cursor.places text)
    (h : pattern.Accepts start captures stop) (hspan : captures.lookup name = some span) :
    span.chars <:+: text := by
  obtain ⟨lead, piece, -, hlead, hpiece, -⟩ := h.exists_reads_of_mem (mem_of_lookup_eq_some hspan)
  obtain ⟨before, htext, -⟩ := Cursor.eq_append_of_mem_places hstart
  rw [Span.chars_eq_of_reads hpiece]
  refine ⟨before ++ lead, span.stop.rest, ?_⟩
  rw [htext, hlead.rest_eq, hpiece.rest_eq]
  simp

theorem text_isInfix (hstart : found.whole.start ∈ Cursor.places text)
    (h : pattern.Accepts found.whole.start found.captures found.whole.stop) (name : String) :
    (found.text name).toList <:+: text := by
  rw [Match.text]
  cases hspan : found.get? name with
  | none => exact List.nil_infix
  | some span =>
      rw [Option.map_some, Option.getD_some, Span.text, String.toList_ofList]
      exact chars_isInfix hstart h hspan

/-! ## Blanked matches -/

section

variable {before : Option Char} {offset free : Nat} {found? : Cursor → Option Match}

theorem eq_nil_of_isPrefix_space {rest : List Char} (hword : ' ' ∉ word)
    (h : word <+: ' ' :: rest) : word = [] := by
  rcases List.prefix_cons_iff.mp h with hnil | ⟨more, rfl, -⟩
  · exact hnil
  · exact (hword List.mem_cons_self).elim

/-- At a free place what is left begins as the text does, up to the first space. -/
theorem isPrefix_of_isPrefix_blankOutFrom (hword : ' ' ∉ word) (hfree : free ≤ offset)
    (h : word <+: blankOutFrom free
      ((Cursor.placesFrom before offset text).map fun place => (place, found? place))) :
    word <+: text := by
  induction text generalizing word before offset with
  | nil =>
      rw [Cursor.placesFrom, List.map_singleton] at h
      cases hfound : found? ⟨before, offset, []⟩ with
      | none =>
          rw [hfound, blankOutFrom_none (Nat.not_lt.mpr hfree)] at h
          exact h
      | some found =>
          rw [hfound, blankOutFrom_some (Nat.not_lt.mpr hfree)] at h
          obtain rfl := eq_nil_of_isPrefix_space hword h
          exact List.nil_prefix
  | cons c rest ih =>
      rw [Cursor.placesFrom, List.map_cons] at h
      cases hfound : found? ⟨before, offset, c :: rest⟩ with
      | none =>
          rw [hfound, blankOutFrom_none (Nat.not_lt.mpr hfree)] at h
          rcases List.prefix_cons_iff.mp h with rfl | ⟨more, rfl, hmore⟩
          · exact List.nil_prefix
          · rw [List.cons_prefix_cons]
            exact ⟨rfl, ih (fun hmem => hword (List.mem_cons_of_mem _ hmem))
              (Nat.le_add_right_of_le hfree) hmore⟩
      | some found =>
          rw [hfound, blankOutFrom_some (Nat.not_lt.mpr hfree)] at h
          obtain rfl := eq_nil_of_isPrefix_space hword h
          exact List.nil_prefix

theorem isInfix_of_isInfix_blankOutFrom (hword : ' ' ∉ word)
    (h : word <:+: blankOutFrom free
      ((Cursor.placesFrom before offset text).map fun place => (place, found? place))) :
    word <:+: text := by
  induction text generalizing free before offset with
  | nil =>
      rw [Cursor.placesFrom, List.map_singleton] at h
      by_cases hcovered : offset < free
      · rw [blankOutFrom_covered hcovered] at h
        exact h
      · cases hfound : found? ⟨before, offset, []⟩ with
        | none =>
            rw [hfound, blankOutFrom_none hcovered] at h
            exact h
        | some found =>
            rw [hfound, blankOutFrom_some hcovered] at h
            rcases List.infix_cons_iff.mp h with h | h
            · obtain rfl := eq_nil_of_isPrefix_space hword h
              exact List.nil_infix
            · exact h
  | cons c rest ih =>
      have htail {free : Nat} (h : word <:+: blankOutFrom free
          ((Cursor.placesFrom (some c) (offset + c.utf8Size) rest).map fun place =>
            (place, found? place))) : word <:+: c :: rest :=
        (ih h).trans (List.suffix_cons c rest).isInfix
      have hbegin (hfree : free ≤ offset) (h : word <+: blankOutFrom free
          ((Cursor.placesFrom before offset (c :: rest)).map fun place =>
            (place, found? place))) : word <+: c :: rest :=
        isPrefix_of_isPrefix_blankOutFrom hword hfree h
      rw [Cursor.placesFrom, List.map_cons] at h hbegin
      by_cases hcovered : offset < free
      · rw [blankOutFrom_covered hcovered] at h
        exact htail h
      · cases hfound : found? ⟨before, offset, c :: rest⟩ with
        | none =>
            rw [hfound, blankOutFrom_none hcovered] at h hbegin
            rcases List.infix_cons_iff.mp h with h | h
            · exact (hbegin (Nat.not_lt.mp hcovered) h).isInfix
            · exact htail h
        | some found =>
            rw [hfound, blankOutFrom_some hcovered] at h
            rcases List.infix_cons_iff.mp h with h | h
            · obtain rfl := eq_nil_of_isPrefix_space hword h
              exact List.nil_infix
            · exact htail h

end

/-- A word without spaces that is left where matches are replaced stands in the text. -/
theorem isInfix_of_isInfix_blankOut (hword : ' ' ∉ word) (h : word <:+: pattern.blankOut text) :
    word <:+: text := by
  rw [blankOut, candidates_eq_map] at h
  exact isInfix_of_isInfix_blankOutFrom hword h

end LayerLint.Pattern
