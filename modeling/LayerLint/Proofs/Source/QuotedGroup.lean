import LayerLint.Proofs.Source.Reference
import LayerLint.Proofs.Text.Slice
import LayerLint.Proofs.Text.Widening

/-! # References read through another text

The text that is searched for references need not be the masked form of the source. Every quoted
group that is found in it is a range of bytes. Where the source has a piece of text in that range, a
reference is read, and other ranges are passed over; what becomes of a range does not depend on any
other one.
-/

namespace LayerLint.Source.Reference

open Pattern
open Text (Cursor Span byteSize)

/-- The offset behind the specifier's last character. -/
def stop (reference : Reference) : Nat :=
  reference.offset + reference.specifier.utf8ByteSize

theorem lt_stop {reference : Reference} (h : reference.specifier ≠ "") :
    reference.offset < reference.stop := by
  apply Nat.lt_add_of_pos_right
  rwa [Nat.pos_iff_ne_zero, Ne, String.utf8ByteSize_eq_zero_iff]

/-- The search for a form of the kind finds a match whose quoted group lies between the offsets. -/
def FindsGroup (text : String) (kind : ReferenceKind) (start stop : Nat) : Prop :=
  ∃ form ∈ forms, form.1 = kind ∧ ∃ found ∈ form.2.findAll text.toList, ∃ group,
    found.get? "specifier" = some group ∧ group.start.offset = start ∧ group.stop.offset = stop

/-- Between the offsets is all that stands between two equal quotes, on one line. -/
def IsQuoted (text : String) (start stop : Nat) : Prop :=
  ∃ before quote inside after, text.toList = before ++ quote :: (inside ++ quote :: after) ∧
    (quote = '\'' ∨ quote = '"') ∧ (∀ c ∈ inside, c ≠ quote ∧ c ≠ '\n') ∧
    start = byteSize (before ++ [quote]) ∧ stop = start + byteSize inside

variable {source masked : String} {kind kind' : ReferenceKind} {start stop stop' : Nat}

/-! ## Groups -/

namespace FindsGroup

theorem exists_quotation (h : FindsGroup masked kind start stop) :
    ∃ (first last : Cursor) (captures : Captures) (quotation : Quotation first captures last),
      first ∈ Cursor.places masked.toList ∧ quotation.opening.offset = start ∧
        quotation.closing.offset = stop := by
  obtain ⟨form, hform, -, found, hfound, group, hgroup, rfl, rfl⟩ := h
  obtain ⟨hstart, haccepts⟩ := accepts_of_mem_findAll hfound
  obtain ⟨quotation⟩ := quotation_of_form hform haccepts
  rw [Match.get?, quotation.captures_eq] at hgroup
  obtain rfl : ⟨quotation.opening, quotation.closing⟩ = group := Option.some.inj hgroup
  exact ⟨_, _, _, quotation, hstart, rfl, rfl⟩

/-- Where a group begins decides where it ends, whatever form finds it. -/
theorem stop_unique (h : FindsGroup masked kind start stop)
    (h' : FindsGroup masked kind' start stop') : stop = stop' := by
  obtain ⟨first, last, captures, quotation, hplace, hopening, rfl⟩ := h.exists_quotation
  obtain ⟨first', last', captures', quotation', hplace', hopening', rfl⟩ := h'.exists_quotation
  have hsame : quotation.opening = quotation'.opening :=
    Cursor.eq_of_offset_eq (Cursor.mem_places_of_reads hplace quotation.reads_lead)
      (Cursor.mem_places_of_reads hplace' quotation'.reads_lead) (hopening.trans hopening'.symm)
  have hcaptures := quotation.captures_eq_of_opening_eq quotation' hsame
  rw [quotation.captures_eq, quotation'.captures_eq] at hcaptures
  simp only [List.cons.injEq, Prod.mk.injEq, Span.mk.injEq] at hcaptures
  rw [hcaptures.1.2.2]

theorem isQuoted (h : FindsGroup masked kind start stop) : IsQuoted masked start stop := by
  obtain ⟨first, last, captures, quotation, hplace, rfl, rfl⟩ := h.exists_quotation
  obtain ⟨before, hbefore, htext⟩ := quotation.text_eq hplace
  refine ⟨before ++ quotation.first :: quotation.lead, quotation.quote, quotation.inside,
    quotation.trail ++ last.rest, by simpa using htext, quotation.isQuote,
    quotation.inside_plain, ?_, quotation.reads_inside.offset_eq⟩
  rw [quotation.reads_lead.offset_eq, hbefore, ← Text.byteSize_append]
  simp

end FindsGroup

/-! ## One group -/

section

variable {reference : Reference} {found : Match}

theorem exists_group_of_ofMatch? (h : ofMatch? source.toList kind found = some reference) :
    ∃ group, found.get? "specifier" = some group ∧ reference.kind = kind ∧
      group.start.offset = reference.offset ∧ group.stop.offset = reference.stop ∧
      reference.specifier ≠ "" ∧
      Text.IsPiece source reference.offset reference.stop reference.specifier := by
  obtain ⟨group, hgroup, h⟩ := Option.bind_eq_some_iff.mp h
  obtain ⟨piece, hpiece, h⟩ := Option.bind_eq_some_iff.mp h
  split at h
  next => cases h
  next hne =>
    cases h
    have hcut := Text.isPiece_of_slice? hpiece
    have hstop : group.stop.offset =
        stop ⟨String.ofList piece, group.start.offset, kind⟩ := hcut.stop_eq
    refine ⟨group, hgroup, rfl, rfl, hstop, ?_, hstop ▸ hcut⟩
    simpa [List.isEmpty_iff] using hne

theorem exists_ofMatch? {group : Span} (kind : ReferenceKind)
    (hgroup : found.get? "specifier" = some group)
    (hlt : group.start.offset < group.stop.offset)
    (hstart : group.start.offset ∈ Text.boundaries source)
    (hstop : group.stop.offset ∈ Text.boundaries source) :
    ∃ reference, ofMatch? source.toList kind found = some reference ∧
      reference.offset = group.start.offset ∧ reference.kind = kind := by
  obtain ⟨piece, hpiece⟩ := Text.exists_slice? hstart hstop (Nat.le_of_lt hlt)
  have hne : piece ≠ [] := by
    rintro rfl
    have hsize : group.stop.offset = group.start.offset + 0 :=
      (Text.isPiece_of_slice? hpiece).stop_eq
    omega
  refine ⟨⟨String.ofList piece, group.start.offset, kind⟩, ?_, rfl, rfl⟩
  simp [ofMatch?, hgroup, hpiece, hne]

theorem isPiece_of_mem_byForm (h : reference ∈ byForm source.toList masked.toList) :
    reference.specifier ≠ "" ∧
      Text.IsPiece source reference.offset reference.stop reference.specifier ∧
      FindsGroup masked reference.kind reference.offset reference.stop := by
  obtain ⟨form, hform, found, hfound, hmatch⟩ := mem_byForm_iff.mp h
  obtain ⟨group, hgroup, hkind, hstart, hstop, hne, hpiece⟩ := exists_group_of_ofMatch? hmatch
  exact ⟨hne, hpiece, form, hform, hkind.symm, found, hfound, group, hgroup, hstart, hstop⟩

theorem FindsGroup.exists_mem_byForm (h : FindsGroup masked kind start stop) (hlt : start < stop)
    (hstart : start ∈ Text.boundaries source) (hstop : stop ∈ Text.boundaries source) :
    ∃ reference ∈ byForm source.toList masked.toList, reference.offset = start ∧
      reference.kind = kind := by
  obtain ⟨form, hform, rfl, found, hfound, group, hgroup, rfl, rfl⟩ := h
  obtain ⟨reference, hmatch, hoffset, hkind⟩ := exists_ofMatch? form.1 hgroup hlt hstart hstop
  exact ⟨reference, mem_byForm_iff.mpr ⟨form, hform, found, hfound, hmatch⟩, hoffset, hkind⟩

end

/-! ## All references -/

/-- A reference is a piece of the source, not empty, in the range of a quoted group that its form
finds in the searched text. No lesser form finds a group at its offset. -/
structure ReadsGroup (source masked : String) (reference : Reference) : Prop where
  specifier_ne : reference.specifier ≠ ""
  isPiece : Text.IsPiece source reference.offset reference.stop reference.specifier
  findsGroup : FindsGroup masked reference.kind reference.offset reference.stop
  least : ∀ kind stop, FindsGroup masked kind reference.offset stop →
    reference.kind.rank ≤ kind.rank

theorem readsGroup_of_mem_allInMasked {reference : Reference}
    (h : reference ∈ allInMasked source.toList masked.toList) :
    ReadsGroup source masked reference := by
  obtain ⟨hmem, hleast⟩ := least_of_mem_allInMasked h
  obtain ⟨hne, hpiece, hfinds⟩ := isPiece_of_mem_byForm hmem
  refine ⟨hne, hpiece, hfinds, ?_⟩
  intro kind stop hother
  obtain rfl := hfinds.stop_unique hother
  obtain ⟨other, hmem, hoffset, rfl⟩ :=
    hother.exists_mem_byForm (lt_stop hne) hpiece.start_mem hpiece.stop_mem
  exact hleast other hmem hoffset

/-- Whether a group has a reference depends on its own range alone. -/
theorem FindsGroup.exists_mem_allInMasked_iff (h : FindsGroup masked kind start stop) :
    (∃ reference ∈ allInMasked source.toList masked.toList, reference.offset = start) ↔
      start < stop ∧ start ∈ Text.boundaries source ∧ stop ∈ Text.boundaries source := by
  constructor
  · rintro ⟨reference, hmem, rfl⟩
    have hreads := readsGroup_of_mem_allInMasked hmem
    obtain rfl := h.stop_unique hreads.findsGroup
    exact ⟨lt_stop hreads.specifier_ne, hreads.isPiece.start_mem, hreads.isPiece.stop_mem⟩
  · rintro ⟨hlt, hstart, hstop⟩
    obtain ⟨reference, hmem, rfl, -⟩ := h.exists_mem_byForm hlt hstart hstop
    exact exists_mem_allInMasked hmem

/-- Whatever text is searched, references have strictly increasing offsets, and each one is read
from the range of a group. What is found is quoted, and has a reference unless its range is empty,
lies outside the source or cuts one of its characters. -/
theorem allInMasked_reads_groups (source masked : String) :
    (allInMasked source.toList masked.toList).Pairwise
        (fun first second => first.offset < second.offset) ∧
      (∀ reference ∈ allInMasked source.toList masked.toList,
        ReadsGroup source masked reference) ∧
      ∀ kind start stop, FindsGroup masked kind start stop → IsQuoted masked start stop ∧
        ((∃ reference ∈ allInMasked source.toList masked.toList, reference.offset = start) ↔
          start < stop ∧ start ∈ Text.boundaries source ∧ stop ∈ Text.boundaries source) := by
  refine ⟨pairwise_allInMasked _ _, fun _ => readsGroup_of_mem_allInMasked, ?_⟩
  intro kind start stop hfinds
  exact ⟨hfinds.isQuoted, hfinds.exists_mem_allInMasked_iff⟩

/-- The first group would cut a character and is passed over. -/
example : allInMasked "import 'é';import'c'".toList "import'ab'; import'c'".toList =
    [⟨"c", 19, .staticImport⟩] := by
  decide +kernel

end LayerLint.Source.Reference
