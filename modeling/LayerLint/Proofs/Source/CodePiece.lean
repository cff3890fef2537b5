import LayerLint.Proofs.Source.DeclarationForm
import LayerLint.Proofs.Source.PlainCode
import LayerLint.Proofs.Text.Bytes

/-! # Pieces of the code

A name or a keyword that is seen in a masked text stands in the source at the same bytes, and all of
it is code: it is no part of a comment, of a literal or of a template. What is next to it in the
source is what is seen there, unless that is blanked.
-/

namespace LayerLint.Source

open Text (byteSize)
open Text.Cursor (eq_nil_of_byteSize_eq_zero)

variable {source : List Char} {offset : Nat} {piece : List Char}

/-- A piece of a source text that is code from its first character to its last. -/
structure CodePiece (source : List Char) (offset : Nat) (piece : List Char) where
  before : List Char
  after : List Char
  source_eq : source = before ++ (piece ++ after)
  offset_eq : offset = byteSize before
  /-- Every character of the piece is read in the code. -/
  isCode : ∀ first c second, piece = first ++ c :: second →
    regionAt (before ++ first) (c :: (second ++ after)) = .code
  /-- The code goes on behind it. -/
  goesOn : regionAt (before ++ piece) after = .code

namespace CodePiece

/-- What is seen in front of the piece. -/
def seenBefore (code : CodePiece source offset piece) : List Char :=
  maskUntil (piece ++ code.after).head? .code code.before

/-- What is seen behind the piece. -/
def seenAfter (code : CodePiece source offset piece) : List Char :=
  maskFrom .code code.after

theorem slice?_offset (code : CodePiece source offset piece) :
    Text.slice? source offset (offset + byteSize piece) = some piece :=
  Text.slice?_of_split code.source_eq code.offset_eq rfl

/-- The line of a piece is told by the line feeds before it, and its column by what is behind the
last of them. -/
theorem ofOffset_eq (code : CodePiece source offset piece) : Text.Position.ofOffset source offset =
    ⟨code.before.count '\n' + 1, (Text.lineEnd '\n' code.before).length + 1⟩ := by
  have hbefore := Text.prefixWithin_byteSize code.before (piece ++ code.after)
  rw [← code.source_eq, ← code.offset_eq] at hbefore
  rw [Text.Position.ofOffset_eq, hbefore]

end CodePiece

/-! ## Names that are seen -/

theorem IsPlain.of_isNamePart {name : List Char} (hname : ∀ c ∈ name, isNamePart c = true)
    (following : Option Char) : IsPlain following name := by
  apply IsPlain.of_all
  rw [List.all_eq_true]
  intro c hc
  obtain ⟨hdelimiter, hslash, -⟩ :=
    Declaration.isDelimiter_eq_false_of_isNamePart (hname c hc)
  simp [hdelimiter, hslash]

/-- A name at the beginning of a masked text that begins in the code. -/
theorem exists_of_maskFrom_code_eq {text name tail : List Char}
    (hname : ∀ c ∈ name, isNamePart c = true) (h : maskFrom .code text = name ++ tail) :
    ∃ rest, text = name ++ rest ∧ tail = maskFrom .code rest := by
  induction name generalizing text with
  | nil => exact ⟨text, rfl, h.symm⟩
  | cons c name ih =>
      obtain ⟨hc, hrest⟩ := List.forall_mem_cons.mp hname
      obtain ⟨hdelimiter, hslash, hblank⟩ := Declaration.isDelimiter_eq_false_of_isNamePart hc
      have hspace : c ≠ ' ' := by
        rintro rfl
        cases hblank
      have hseen : maskFrom .code text = [] ++ c :: (name ++ tail) := h
      obtain ⟨first, rest, rfl, hfirst, -, htail⟩ := exists_of_maskFrom_eq_append hspace hseen
      obtain rfl : first = [] := eq_nil_of_byteSize_eq_zero (by
        rw [← byteSize_maskUntil (some c) .code first, ← hfirst]
        rfl)
      have hnext : Region.code.next c rest.head? = .code :=
        (Region.code_next_plain hdelimiter fun heq => (hslash heq).elim).1
      rw [Region.after, hnext] at htail
      obtain ⟨rest, rfl, rfl⟩ := ih hrest htail.symm
      exact ⟨rest, rfl, rfl⟩

/-- A name that is seen in the masked text of a source is a piece of its code. -/
theorem exists_codePiece {seen tail : List Char}
    (hmasked : maskChars source = seen ++ (piece ++ tail)) (hne : piece ≠ [])
    (hname : ∀ c ∈ piece, isNamePart c = true) :
    ∃ code : CodePiece source (byteSize seen) piece,
      code.seenBefore = seen ∧ code.seenAfter = tail := by
  obtain ⟨c, rest, rfl⟩ := List.exists_cons_of_ne_nil hne
  obtain ⟨hdelimiter, hslash, hblank⟩ :=
    Declaration.isDelimiter_eq_false_of_isNamePart (hname c List.mem_cons_self)
  have hc : c ≠ ' ' ∧ c ≠ '\n' ∧ c ≠ '\r' := by
    refine ⟨?_, ?_, ?_⟩
    all_goals
      rintro rfl
      cases hblank
  obtain ⟨before, text, rfl, rfl, hseen, hrest⟩ := exists_of_maskFrom_eq_append hc.1 hmasked
  have hshown := hseen.resolve_right (by simp [hc])
  have hcode : Region.after (some c) .code before = .code :=
    Region.eq_code_of_shows (Region.hasQuote_after rfl) hshown hdelimiter
  have hnext : Region.code.next c text.head? = .code :=
    (Region.code_next_plain hdelimiter fun heq => (hslash heq).elim).1
  rw [hcode, hnext] at hrest
  obtain ⟨after, rfl, rfl⟩ :=
    exists_of_maskFrom_code_eq (List.forall_mem_cons.mp hname).2 hrest.symm
  -- behind the text in front of it the code goes on through the name
  have hthrough {first : List Char} {following : Option Char}
      (hfirst : ∀ d ∈ first, isNamePart d = true)
      (hbegins : first.head?.or following = some c) :
      Region.after following .code (before ++ first) = .code := by
    rw [Region.after_append, hbegins, hcode]
    exact (IsPlain.of_isNamePart hfirst following).2
  refine ⟨⟨before, after, by simp, (byteSize_maskUntil _ _ _), ?_, ?_⟩, rfl, rfl⟩
  · intro first d second heq
    apply hthrough
    · intro e he
      exact hname e (heq ▸ List.mem_append_left _ he)
    · have hhead := congrArg List.head? heq
      rw [List.head?_cons, List.head?_append] at hhead
      exact hhead.symm
  · exact hthrough hname rfl

/-! ## Next to a piece -/

/-- Where the code begins behind a character of a line that is not seen, a comment is closed. -/
theorem Region.eq_blockClose_of_next {region : Region} {following : Option Char} {c : Char}
    (hhidden : region.shows c following = false) (hline : c ≠ '\n')
    (hnext : region.next c following = .code) : region = .blockClose := by
  cases region with
  | blockClose => rfl
  | lineComment => simp [next, hline] at hnext
  | blockOpen | quotedEscape quote | templateEscape => cases hnext
  | code =>
      simp only [shows_code, Bool.not_eq_false', Bool.and_eq_true, beq_iff_eq,
        Bool.or_eq_true] at hhidden
      obtain ⟨rfl, rfl | rfl⟩ := hhidden <;> cases hnext
  | blockComment =>
      rw [next] at hnext
      split at hnext <;> cases hnext
  | quoted quote =>
      have hquote : c ≠ quote := by simpa using hhidden
      simp only [next, hquote, hline, or_self, if_false] at hnext
      split at hnext <;> cases hnext
  | template =>
      have htick : c ≠ backTick := by simpa using hhidden
      simp only [next, htick, if_false] at hnext
      split at hnext <;> cases hnext

namespace CodePiece

variable {ok : Char → Bool}

theorem isCode_before (code : CodePiece source offset piece) :
    Region.after (piece ++ code.after).head? .code code.before = .code := by
  cases piece with
  | nil => exact List.append_nil code.before ▸ code.goesOn
  | cons c rest => exact List.append_nil code.before ▸ code.isCode [] c rest rfl

/-- A character in front of the code is seen there, or it is the slash that closes a comment. -/
theorem getLast?_any_before (code : CodePiece source offset piece) (hslash : ok '/' = false)
    (hseen : code.seenBefore.getLast?.any ok = false) : code.before.getLast?.any ok = false := by
  have hcode := code.isCode_before
  rw [seenBefore] at hseen
  rcases List.eq_nil_or_concat' code.before with hnil | ⟨first, c, hbefore⟩
  · rw [hnil]
    rfl
  · rw [hbefore, Region.after_concat] at hcode
    rw [hbefore, maskUntil_concat] at hseen
    rw [hbefore, List.getLast?_concat, Option.any_some]
    split at hseen
    next => rwa [List.getLast?_concat] at hseen
    next hhidden =>
      by_cases hline : c = '\n'
      · rwa [blank, if_pos (.inl hline), List.getLast?_concat] at hseen
      · have hclose := Region.eq_blockClose_of_next (by simpa using hhidden) hline hcode
        rwa [Region.eq_slash_of_after_eq_blockClose hclose]

/-- A character behind the code is seen there, or it is the slash that opens a comment. -/
theorem head?_any_after (code : CodePiece source offset piece) (hslash : ok '/' = false)
    (hseen : code.seenAfter.head?.any ok = false) : code.after.head?.any ok = false := by
  rw [seenAfter] at hseen
  cases hafter : code.after with
  | nil => rfl
  | cons c rest =>
      rw [hafter, maskFrom] at hseen
      rw [List.head?_cons, Option.any_some]
      by_cases hc : c = '/'
      · rw [hc]
        exact hslash
      · simpa [hc] using hseen

end CodePiece

end LayerLint.Source
