import LayerLint.Proofs.Source.Quotation

/-! # The references of a source text

Searching the masked text finds exactly the pieces that the forms of references describe there. A
search passes over a piece only because of a match that reaches the same quoted group, so that no
reference is lost, and each group is the inside of a literal in the code of the source. Of the
references to one group the one of the first form is kept.
-/

namespace LayerLint.Source.Reference

open Pattern
open Text (Cursor Span)

/-! ## One reference for each offset -/

variable {references : List Reference} {reference : Reference}

theorem inOrder_iff {first second : Reference} :
    inOrder first second = true ↔ first.offset < second.offset ∨
      (first.offset = second.offset ∧ first.kind.rank ≤ second.kind.rank) := by
  simp [inOrder]

theorem pairwise_mergeSort_inOrder (references : List Reference) :
    (references.mergeSort inOrder).Pairwise fun first second => inOrder first second = true := by
  refine List.pairwise_mergeSort (fun first second third => ?_) (fun first second => ?_) references
  · simp only [inOrder_iff]
    omega
  · rw [Bool.or_eq_true, inOrder_iff, inOrder_iff]
    omega

/-- No reference of a list stands before the offset that was kept last. -/
def NotBefore (last : Option Nat) (references : List Reference) : Prop :=
  ∀ offset, last = some offset → ∀ reference ∈ references, offset ≤ reference.offset

theorem NotBefore.of_inOrder {found : Reference}
    (hfound : ∀ next ∈ references, inOrder found next = true) :
    NotBefore (some found.offset) references := by
  rintro offset ⟨⟩ next hnext
  have := inOrder_iff.mp (hfound next hnext)
  omega

/-- What is kept of a sorted list has strictly increasing offsets, all behind the last one. -/
theorem pairwise_dropRepeats {last : Option Nat}
    (hsorted : references.Pairwise fun first second => inOrder first second = true)
    (hlast : NotBefore last references) :
    (dropRepeats last references).Pairwise (fun first second => first.offset < second.offset) ∧
      ∀ reference ∈ dropRepeats last references, ∀ offset, last = some offset →
        offset < reference.offset := by
  induction references generalizing last with
  | nil => exact ⟨.nil, by simp [dropRepeats]⟩
  | cons found rest ih =>
      obtain ⟨hfound, hsorted⟩ := List.pairwise_cons.mp hsorted
      have hnext := NotBefore.of_inOrder hfound
      rw [dropRepeats]
      split
      next heq =>
        exact ih hsorted fun offset hoffset next hnext =>
          hlast offset hoffset next (List.mem_cons_of_mem _ hnext)
      next hne =>
        obtain ⟨hpairwise, hbehind⟩ := ih hsorted hnext
        refine ⟨List.pairwise_cons.mpr ⟨fun next hnext => hbehind next hnext _ rfl, hpairwise⟩, ?_⟩
        intro next hmem offset hoffset
        have hle := hlast offset hoffset found List.mem_cons_self
        have hlt : offset < found.offset := by
          refine Nat.lt_of_le_of_ne hle fun heq => hne ?_
          rw [hoffset, heq]
        rcases List.mem_cons.mp hmem with rfl | hmem
        · exact hlt
        · exact Nat.lt_trans hlt (hbehind next hmem _ rfl)

/-- What is kept of a sorted list is of the least form among those with its offset. -/
theorem mem_of_mem_dropRepeats {last : Option Nat}
    (hsorted : references.Pairwise fun first second => inOrder first second = true)
    (hlast : NotBefore last references) (h : reference ∈ dropRepeats last references) :
    reference ∈ references ∧ ∀ other ∈ references, other.offset = reference.offset →
      reference.kind.rank ≤ other.kind.rank := by
  induction references generalizing last with
  | nil => cases h
  | cons found rest ih =>
      have hbehind := (pairwise_dropRepeats hsorted hlast).2 reference h
      obtain ⟨hfound, hsorted⟩ := List.pairwise_cons.mp hsorted
      rw [dropRepeats] at h
      split at h
      next heq =>
        obtain ⟨hmem, hleast⟩ := ih hsorted (fun offset hoffset next hnext =>
          hlast offset hoffset next (List.mem_cons_of_mem _ hnext)) h
        have hne : found.offset < reference.offset := hbehind _ heq.symm
        refine ⟨List.mem_cons_of_mem _ hmem, List.forall_mem_cons.mpr ⟨?_, hleast⟩⟩
        intro hsame
        omega
      next hne =>
        have hnext := NotBefore.of_inOrder hfound
        rcases List.mem_cons.mp h with rfl | h
        · refine ⟨List.mem_cons_self, List.forall_mem_cons.mpr ⟨fun _ => Nat.le_refl _, ?_⟩⟩
          intro other hother hsame
          have := inOrder_iff.mp (hfound other hother)
          omega
        · obtain ⟨hmem, hleast⟩ := ih hsorted hnext h
          have hlt := (pairwise_dropRepeats hsorted hnext).2 reference h _ rfl
          refine ⟨List.mem_cons_of_mem _ hmem, List.forall_mem_cons.mpr ⟨?_, hleast⟩⟩
          intro hsame
          omega

theorem exists_mem_dropRepeats (last : Option Nat) (h : reference ∈ references)
    (hlast : some reference.offset ≠ last) :
    ∃ kept ∈ dropRepeats last references, kept.offset = reference.offset := by
  induction references generalizing last with
  | nil => cases h
  | cons found rest ih =>
      rw [dropRepeats]
      split
      next heq =>
        rcases List.mem_cons.mp h with rfl | h
        · exact (hlast heq).elim
        · exact ih _ h hlast
      next hne =>
        by_cases hsame : found.offset = reference.offset
        · exact ⟨found, List.mem_cons_self, hsame⟩
        · have hrest : reference ∈ rest :=
            (List.mem_cons.mp h).resolve_left fun heq => hsame (by rw [heq])
          obtain ⟨kept, hkept, hoffset⟩ := ih _ hrest fun heq => hsame (Option.some.inj heq).symm
          exact ⟨kept, List.mem_cons_of_mem _ hkept, hoffset⟩

/-! ## Matches and literals -/

/-- All references of a source text by form, before they are sorted. -/
def byForm (source masked : List Char) : List Reference :=
  forms.flatMap fun form => (form.2.findAll masked).filterMap (ofMatch? source form.1)

theorem mem_byForm_iff {source masked : List Char} :
    reference ∈ byForm source masked ↔ ∃ form ∈ forms, ∃ found ∈ form.2.findAll masked,
      ofMatch? source form.1 found = some reference := by
  simp [byForm]

theorem pairwise_allInMasked (source masked : List Char) :
    (allInMasked source masked).Pairwise fun first second => first.offset < second.offset :=
  (pairwise_dropRepeats (pairwise_mergeSort_inOrder _) (by rintro _ ⟨⟩)).1

theorem least_of_mem_allInMasked {source masked : List Char}
    (h : reference ∈ allInMasked source masked) :
    reference ∈ byForm source masked ∧ ∀ other ∈ byForm source masked,
      other.offset = reference.offset → reference.kind.rank ≤ other.kind.rank := by
  obtain ⟨hmem, hleast⟩ :=
    mem_of_mem_dropRepeats (pairwise_mergeSort_inOrder _) (by rintro _ ⟨⟩) h
  refine ⟨List.mem_mergeSort.mp hmem, fun other hother => ?_⟩
  exact hleast other (List.mem_mergeSort.mpr hother)

theorem exists_mem_allInMasked {source masked : List Char} (h : reference ∈ byForm source masked) :
    ∃ kept ∈ allInMasked source masked, kept.offset = reference.offset :=
  exists_mem_dropRepeats none (List.mem_mergeSort.mpr h) (by simp)

theorem ofMatch?_of_literal {source : List Char} {kind : ReferenceKind} {found : Match}
    {opening closing : Cursor} (literal : Literal source)
    (hcaptures : found.captures = [("specifier", ⟨opening, closing⟩)])
    (hopening : opening.offset = literal.offset)
    (hclosing : closing.offset = literal.offset + Text.byteSize literal.inside) :
    ofMatch? source kind found = if literal.inside = [] then none
      else some ⟨String.ofList literal.inside, literal.offset, kind⟩ := by
  have hget : found.get? "specifier" = some ⟨opening, closing⟩ := by
    rw [Match.get?, hcaptures]
    rfl
  simp only [ofMatch?, hget, Option.bind_eq_bind, Option.bind_some, hopening, hclosing,
    literal.slice?_offset, List.isEmpty_iff]
  rfl

theorem exists_literal_of_mem_findAll {source : List Char} {form : ReferenceKind × Pattern}
    {found : Match} (hform : form ∈ forms)
    (hfound : found ∈ form.2.findAll (maskChars source)) :
    ∃ (literal : Literal source) (opening closing : Cursor),
      found.captures = [("specifier", ⟨opening, closing⟩)] ∧ opening.offset = literal.offset ∧
      closing.offset = literal.offset + Text.byteSize literal.inside ∧ '\n' ∉ literal.inside := by
  obtain ⟨hstart, haccepts⟩ := accepts_of_mem_findAll hfound
  obtain ⟨quotation⟩ := quotation_of_form hform haccepts
  obtain ⟨literal, hopening, hclosing, hline, -⟩ := quotation.exists_literal hstart
  exact ⟨literal, _, _, quotation.captures_eq, hopening, hclosing, hline⟩

theorem exists_literal_of_mem_byForm {source : List Char}
    (h : reference ∈ byForm source (maskChars source)) :
    ∃ literal : Literal source, reference.offset = literal.offset ∧
      reference.specifier = String.ofList literal.inside ∧ literal.inside ≠ [] ∧
      '\n' ∉ literal.inside := by
  obtain ⟨form, hform, found, hfound, hmatch⟩ := mem_byForm_iff.mp h
  obtain ⟨literal, opening, closing, hcaptures, hopening, hclosing, hline⟩ :=
    exists_literal_of_mem_findAll hform hfound
  rw [ofMatch?_of_literal literal hcaptures hopening hclosing] at hmatch
  split at hmatch
  next => cases hmatch
  next hinside =>
    cases hmatch
    exact ⟨literal, rfl, rfl, hinside, hline⟩

theorem pairwise_allIn (source : String) :
    (allIn source).Pairwise fun first second => first.offset < second.offset :=
  pairwise_allInMasked _ _

theorem mem_byForm_of_mem_allIn {source : String} (h : reference ∈ allIn source) :
    reference ∈ byForm source.toList (maskChars source.toList) :=
  (least_of_mem_allInMasked h).1

/-- Every reference is the inside of a string literal in the code: the literal opens in front of
its offset, lasts over all its characters and is closed by its own quote behind them. Its specifier
is the text of the source there, which is not empty and on one line. -/
theorem exists_literal_of_mem_allIn (source : String) (reference : Reference)
    (h : reference ∈ allIn source) :
    ∃ literal : Literal source.toList, reference.offset = literal.offset ∧
      reference.specifier = String.ofList literal.inside ∧ reference.specifier ≠ "" ∧
      '\n' ∉ reference.specifier.toList ∧
      Text.slice? source.toList reference.offset
          (reference.offset + Text.byteSize reference.specifier.toList) =
        some reference.specifier.toList := by
  obtain ⟨literal, hoffset, hspecifier, hinside, hline⟩ :=
    exists_literal_of_mem_byForm (mem_byForm_of_mem_allIn h)
  refine ⟨literal, hoffset, hspecifier, ?_, ?_, ?_⟩
  · rw [hspecifier]
    simpa using hinside
  · rwa [hspecifier, String.toList_ofList]
  · rw [hspecifier, String.toList_ofList, hoffset, literal.slice?_offset]

/-- A comment and a string hold import clauses too, and only the clause in the code counts. -/
theorem exists_literal_of_import_in_code :
    (⟨"./x", 36, .staticImport⟩ : Reference) ∈
        allIn "// import a from 'b'\nimport x from \"./x\"; const s = 'import \"y\"';" ∧
      ∃ literal : Literal
          "// import a from 'b'\nimport x from \"./x\"; const s = 'import \"y\"';".toList,
        36 = literal.offset ∧ "./x" = String.ofList literal.inside ∧ "./x" ≠ "" ∧
        '\n' ∉ "./x".toList ∧
        Text.slice? "// import a from 'b'\nimport x from \"./x\"; const s = 'import \"y\"';".toList
          36 (36 + Text.byteSize "./x".toList) = some "./x".toList := by
  have h : (⟨"./x", 36, .staticImport⟩ : Reference) ∈
      allIn "// import a from 'b'\nimport x from \"./x\"; const s = 'import \"y\"';" := by
    decide +kernel
  exact ⟨h, exists_literal_of_mem_allIn _ _ h⟩

/-! ## Searches lose nothing -/

/-- Some piece of the masked text is described by a form of the kind, and its quoted group, which is
not empty, begins at the offset. -/
def OccursAt (masked : List Char) (kind : ReferenceKind) (offset : Nat) : Prop :=
  ∃ form ∈ forms, form.1 = kind ∧ ∃ start ∈ Cursor.places masked, ∃ captures stop group,
    form.2.Accepts start captures stop ∧ captures.lookup "specifier" = some group ∧
      group.start.offset = offset ∧ offset < group.stop.offset

/-- Every piece that a form describes has its group found, whichever match reaches it. -/
theorem exists_mem_findAll_of_form {source : List Char} {form : ReferenceKind × Pattern}
    (hform : form ∈ forms) {start stop : Cursor} {captures : Captures}
    (hstart : start ∈ Cursor.places (maskChars source))
    (h : form.2.Accepts start captures stop) :
    ∃ found ∈ form.2.findAll (maskChars source), found.captures = captures := by
  obtain ⟨inner⟩ := quotation_of_form hform h
  obtain ⟨found, hfound, hbegins⟩ := exists_mem_findAll_of_accepts hstart h
  obtain ⟨hfoundStart, haccepts⟩ := accepts_of_mem_findAll hfound
  obtain ⟨outer⟩ := quotation_of_form hform haccepts
  refine ⟨found, hfound, outer.captures_eq_of_begins_inside inner hfoundStart hstart ?_ ?_⟩
  · rcases hbegins with heq | hinside
    · exact Nat.le_of_eq (by rw [heq])
    · exact Nat.le_of_lt hinside.1
  · rcases hbegins with heq | hinside
    · rw [← heq]
      exact outer.offset_lt
    · exact hinside.2

theorem exists_mem_byForm_iff {source : List Char} {kind : ReferenceKind} {offset : Nat} :
    (∃ reference ∈ byForm source (maskChars source), reference.offset = offset ∧
      reference.kind = kind) ↔ OccursAt (maskChars source) kind offset := by
  constructor
  · rintro ⟨reference, hmem, rfl, rfl⟩
    obtain ⟨form, hform, found, hfound, hmatch⟩ := mem_byForm_iff.mp hmem
    obtain ⟨literal, opening, closing, hcaptures, hopening, hclosing, -⟩ :=
      exists_literal_of_mem_findAll hform hfound
    obtain ⟨hstart, haccepts⟩ := accepts_of_mem_findAll hfound
    rw [ofMatch?_of_literal literal hcaptures hopening hclosing] at hmatch
    split at hmatch
    next => cases hmatch
    next hinside =>
      cases hmatch
      refine ⟨form, hform, rfl, found.whole.start, hstart, found.captures, found.whole.stop,
        ⟨opening, closing⟩, haccepts, by rw [hcaptures]; rfl, hopening, ?_⟩
      have hpos := Nat.pos_of_ne_zero fun hzero =>
        hinside (Cursor.eq_nil_of_byteSize_eq_zero hzero)
      simp only [hclosing]
      omega
  · rintro ⟨form, hform, rfl, start, hstart, captures, stop, group, haccepts, hgroup, rfl, hlt⟩
    obtain ⟨found, hfound, rfl⟩ := exists_mem_findAll_of_form hform hstart haccepts
    obtain ⟨literal, opening, closing, hcaptures, hopening, hclosing, -⟩ :=
      exists_literal_of_mem_findAll hform hfound
    rw [hcaptures] at hgroup
    obtain rfl : ⟨opening, closing⟩ = group := Option.some.inj hgroup
    have hinside : literal.inside ≠ [] := by
      intro hnil
      rw [hnil] at hclosing
      simp only [hopening, hclosing, Text.byteSize_nil] at hlt
      omega
    have hmatch : ofMatch? source form.1 found = _ :=
      ofMatch?_of_literal literal hcaptures hopening hclosing
    rw [if_neg hinside] at hmatch
    exact ⟨_, mem_byForm_iff.mpr ⟨form, hform, found, hfound, hmatch⟩, hopening.symm, rfl⟩

theorem eq_of_rank_eq {first second : ReferenceKind} (h : first.rank = second.rank) :
    first = second := by
  cases first <;> cases second <;> first | rfl | cases h

/-- The references of a source text have strictly increasing offsets, and there is one of a kind at
an offset exactly when the masked text has a piece of that kind with its quoted group there and none
of a lesser kind. -/
theorem allIn_lists_occurrences (source : String) :
    (allIn source).Pairwise (fun first second => first.offset < second.offset) ∧
      ∀ kind offset, (∃ reference ∈ allIn source, reference.offset = offset ∧
          reference.kind = kind) ↔
        OccursAt (maskChars source.toList) kind offset ∧
          ∀ other, OccursAt (maskChars source.toList) other offset → kind.rank ≤ other.rank := by
  have hsorted := pairwise_mergeSort_inOrder (byForm source.toList (maskChars source.toList))
  have hlast : NotBefore none
      ((byForm source.toList (maskChars source.toList)).mergeSort inOrder) := by rintro _ ⟨⟩
  refine ⟨(pairwise_dropRepeats hsorted hlast).1, fun kind offset => ⟨?_, ?_⟩⟩
  · rintro ⟨reference, hmem, rfl, rfl⟩
    obtain ⟨hkept, hleast⟩ := mem_of_mem_dropRepeats hsorted hlast hmem
    refine ⟨exists_mem_byForm_iff.mp ⟨reference, List.mem_mergeSort.mp hkept, rfl, rfl⟩, ?_⟩
    intro other hother
    obtain ⟨found, hfound, hoffset, rfl⟩ := exists_mem_byForm_iff.mpr hother
    exact hleast found (List.mem_mergeSort.mpr hfound) hoffset
  · rintro ⟨hoccurs, hleast⟩
    obtain ⟨found, hfound, rfl, rfl⟩ := exists_mem_byForm_iff.mpr hoccurs
    obtain ⟨kept, hkept, hoffset⟩ :=
      exists_mem_dropRepeats none (List.mem_mergeSort.mpr hfound) (by simp)
    obtain ⟨hmem, hbefore⟩ := mem_of_mem_dropRepeats hsorted hlast hkept
    have hle := hbefore found (List.mem_mergeSort.mpr hfound) hoffset.symm
    have hge := hleast kept.kind (exists_mem_byForm_iff.mp
      ⟨kept, List.mem_mergeSort.mp hmem, hoffset, rfl⟩)
    exact ⟨kept, hkept, hoffset, eq_of_rank_eq (Nat.le_antisymm hle hge)⟩

end LayerLint.Source.Reference
