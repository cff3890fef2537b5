import LayerLint.Proofs.Pattern.Search
import LayerLint.Proofs.Source.Literal
import LayerLint.Source.Reference

/-! # What the forms of references have in common

Every form begins with a keyword, has one quoted group that is remembered, and has no delimiter
between the two. In a masked text the group is then the inside of a literal of the source, and the
place where it begins is determined by any place between the keyword's first character and it.
-/

namespace LayerLint.Source

open Pattern
open Text (Cursor Span)

/-- A piece of text with one quoted group. -/
structure Quotation (start : Cursor) (captures : Captures) (stop : Cursor) where
  first : Char
  lead : List Char
  quote : Char
  inside : List Char
  trail : List Char
  opening : Cursor
  closing : Cursor
  first_isAlpha : first.isAlpha = true
  lead_plain : ∀ c ∈ lead, isDelimiter c = false
  isQuote : quote = '\'' ∨ quote = '"'
  inside_plain : ∀ c ∈ inside, c ≠ quote ∧ c ≠ '\n'
  trail_plain : ∀ c ∈ trail, c.isAlpha = false
  reads_lead : start.Reads (first :: (lead ++ [quote])) opening
  reads_inside : opening.Reads inside closing
  reads_trail : closing.Reads (quote :: trail) stop
  captures_eq : captures = [("specifier", ⟨opening, closing⟩)]

/-! ## Characters -/

theorem isBlank_eq_false_of_isAlpha {c : Char} (h : c.isAlpha = true) :
    Text.isBlank c = false := by
  rw [Bool.eq_false_iff]
  intro hblank
  obtain ⟨range, hrange, hfirst, hlast⟩ := Text.CodeRanges.exists_of_covers hblank
  have hletter : c.isAlpha = (decide (c.val ≥ 'A'.val ∧ c.val ≤ 'Z'.val) ||
      (decide (c.val ≥ 'a'.val) && decide (c.val ≤ 'z'.val))) := rfl
  simp only [hletter, Bool.or_eq_true, Bool.and_eq_true, decide_eq_true_eq, ge_iff_le,
    UInt32.le_iff_toNat_le] at h
  have hnat : c.toNat = c.val.toNat := rfl
  have hfirstUpper : 'A'.val.toNat = 65 := rfl
  have hlastUpper : 'Z'.val.toNat = 90 := rfl
  have hfirstLower : 'a'.val.toNat = 97 := rfl
  have hlastLower : 'z'.val.toNat = 122 := rfl
  have hgap : ∀ range ∈ Text.blankRanges, range.2 < 65 ∨ 122 < range.1 := by decide
  have := hgap range hrange
  omega

theorem isBlank_eq_false_of_isDelimiter {c : Char} (h : isDelimiter c = true) :
    Text.isBlank c = false := by
  simp only [isDelimiter, Bool.or_eq_true, beq_iff_eq] at h
  rcases h with (rfl | rfl) | rfl <;> decide

theorem isDelimiter_of_isQuote {quote : Char} (h : quote = '\'' ∨ quote = '"') :
    isDelimiter quote = true := by
  rcases h with rfl | rfl <;> rfl

theorem isDelimiter_eq_false_of_isAlpha {c : Char} (h : c.isAlpha = true) :
    isDelimiter c = false := by
  rw [Bool.eq_false_iff]
  intro hdelimiter
  simp only [isDelimiter, Bool.or_eq_true, beq_iff_eq] at hdelimiter
  rcases hdelimiter with (rfl | rfl) | rfl <;> cases h

/-- The first character of a class in a text and what precedes it are determined by the text. -/
theorem eq_of_append_cons_eq (stops : Char → Bool) {lead lead' rest rest' : List Char}
    {c c' : Char} (hlead : ∀ d ∈ lead, stops d = false) (hlead' : ∀ d ∈ lead', stops d = false)
    (hc : stops c = true) (hc' : stops c' = true) (h : lead ++ c :: rest = lead' ++ c' :: rest') :
    lead = lead' ∧ c = c' := by
  induction lead generalizing lead' with
  | nil =>
      cases lead' with
      | nil => exact ⟨rfl, (List.cons.inj h).1⟩
      | cons d lead' =>
          obtain rfl : c = d := (List.cons.inj h).1
          rw [hlead' c List.mem_cons_self] at hc
          cases hc
  | cons d lead ih =>
      cases lead' with
      | nil =>
          obtain rfl : d = c' := (List.cons.inj h).1
          rw [hlead d List.mem_cons_self] at hc'
          cases hc'
      | cons d' lead' =>
          obtain ⟨rfl, htail⟩ := List.cons.inj h
          obtain ⟨rfl, rfl⟩ := ih (fun e he => hlead e (List.mem_cons_of_mem _ he))
            (fun e he => hlead' e (List.mem_cons_of_mem _ he)) htail
          exact ⟨rfl, rfl⟩

/-- A character that does not stand in the back of a text stands in its front. -/
theorem exists_of_append_eq_append_cons {front back before after : List Char} {c : Char}
    (hback : c ∉ back) (h : front ++ back = before ++ c :: after) :
    ∃ rest, front = before ++ c :: rest ∧ after = rest ++ back := by
  rcases List.append_eq_append_iff.mp h with ⟨middle, -, heq⟩ | ⟨rest, hfront, heq⟩
  · exact (hback (heq ▸ by simp)).elim
  · cases rest with
    | nil => exact (hback (by simp at heq; simp [← heq])).elim
    | cons d rest =>
        obtain ⟨rfl, htail⟩ := List.cons.inj heq
        exact ⟨rest, hfront, htail⟩

/-! ## The pieces of the forms -/

namespace Reference

variable {start stop : Cursor} {captures : Captures}

/-- A literal is two equal quotes around text without that quote and without a line feed. -/
theorem exists_of_accepts_literal (h : literal.Accepts start captures stop) :
    ∃ quote inside opening closing, (quote = '\'' ∨ quote = '"') ∧
      (∀ c ∈ inside, c ≠ quote ∧ c ≠ '\n') ∧ start.Reads [quote] opening ∧
      opening.Reads inside closing ∧ closing.Reads [quote] stop ∧
      captures = [("specifier", ⟨opening, closing⟩)] := by
  have hquoted (quote : Char) (h : (quotedIn quote).Accepts start captures stop) :
      ∃ inside opening closing, (∀ c ∈ inside, c ≠ quote ∧ c ≠ '\n') ∧
        start.Reads [quote] opening ∧ opening.Reads inside closing ∧
        closing.Reads [quote] stop ∧ captures = [("specifier", ⟨opening, closing⟩)] := by
    cases h with
    | andThen hopen h =>
      cases h with
      | andThen hinside h =>
        cases h with
        | andThen hclose hend =>
          cases hopen with
          | one hopen hquote =>
            cases hclose with
            | one hclose hquote' =>
              cases hinside with
              | named hinside =>
                cases hinside with
                | long hinside hplain =>
                  cases hend
                  obtain rfl := eq_of_beq hquote
                  obtain rfl := eq_of_beq hquote'
                  exact ⟨_, _, _, fun d hd => by simpa using hplain d hd, hopen, hinside,
                    hclose, rfl⟩
  cases h with
  | orElseFirst h => exact ⟨'"', (hquoted _ h).imp fun _ h => h.imp fun _ h => h.imp fun _ h =>
      ⟨.inr rfl, h⟩⟩
  | orElseSecond h => exact ⟨'\'', (hquoted _ h).imp fun _ h => h.imp fun _ h => h.imp fun _ h =>
      ⟨.inl rfl, h⟩⟩

/-- A keyword, patterns without delimiters, a literal, and patterns without letters describe a
piece of text with one quoted group. -/
theorem quotation_of_accepts {keyword : String} {first : Char} {letters : List Char}
    (hkeyword : keyword.toList = first :: letters) (hfirst : first.isAlpha = true)
    (hletters : letters.all (!isDelimiter ·) = true) (lead trail : List Pattern)
    (hlead : ∀ pattern ∈ lead, pattern.StaysIn (!isDelimiter ·))
    (htrail : ∀ pattern ∈ trail, pattern.StaysIn (!Char.isAlpha ·))
    (h : (all ([boundary, word keyword] ++ (lead ++ literal :: trail))).Accepts start captures
      stop) : Nonempty (Quotation start captures stop) := by
  obtain ⟨middle, before, after, hword, hafter, rfl⟩ := h.of_all_append
  obtain ⟨group, before', after, hbetween, hgroup, rfl⟩ := hafter.of_all_append
  obtain ⟨rfl, between, hbetween, hplain⟩ := hbetween.reads_of_staysIn (staysIn_all hlead)
  obtain ⟨rfl, hkey⟩ : before = [] ∧ start.Reads keyword.toList middle := by
    cases hword with
    | andThen hboundary hword =>
        cases hboundary
        exact hword.of_all_singleton.reads_of_word
  cases hgroup with
  | andThen hliteral htail =>
      obtain ⟨quote, inside, opening, closing, hquote, hinside, hopen, hreads, hclose, rfl⟩ :=
        exists_of_accepts_literal hliteral
      obtain ⟨rfl, rest, hrest, hnoletter⟩ := htail.reads_of_staysIn (staysIn_all htrail)
      rw [hkeyword] at hkey
      exact ⟨{
        first
        lead := letters ++ between
        quote
        inside
        trail := rest
        opening
        closing
        first_isAlpha := hfirst
        lead_plain := by
          intro c hc
          rcases List.mem_append.mp hc with hc | hc
          · simpa using List.all_eq_true.mp hletters c hc
          · simpa using hplain c hc
        isQuote := hquote
        inside_plain := hinside
        trail_plain := fun c hc => by simpa using hnoletter c hc
        reads_lead := by simpa using (hkey.append hbetween).append hopen
        reads_inside := hreads
        reads_trail := hclose.append hrest
        captures_eq := rfl }⟩

theorem not_isDelimiter_of_isBlank (c : Char) (h : Text.isBlank c = true) :
    (!isDelimiter c) = true := by
  rw [Bool.not_eq_true', Bool.eq_false_iff]
  intro hdelimiter
  rw [isBlank_eq_false_of_isDelimiter hdelimiter] at h
  cases h

theorem not_isAlpha_of_isBlank (c : Char) (h : Text.isBlank c = true) :
    (!c.isAlpha) = true := by
  rw [Bool.not_eq_true', Bool.eq_false_iff]
  intro halpha
  rw [isBlank_eq_false_of_isAlpha halpha] at h
  cases h

theorem staysIn_someBlanks : someBlanks.StaysIn (!isDelimiter ·) :=
  ⟨not_isDelimiter_of_isBlank, not_isDelimiter_of_isBlank⟩

theorem staysIn_typeWord : typeWord.StaysIn (!isDelimiter ·) :=
  ⟨⟨staysIn_word (by decide), staysIn_someBlanks⟩, trivial⟩

theorem staysIn_clauseChars : (short isClauseChar).StaysIn (!isDelimiter ·) := by
  intro c hc
  simp only [isClauseChar, Bool.and_eq_true, bne_iff_ne] at hc
  simp [isDelimiter, hc]

theorem quotation_of_accepts_clauseOf {keyword : String} {first : Char} {letters : List Char}
    (hkeyword : keyword.toList = first :: letters) (hfirst : first.isAlpha = true)
    (hletters : letters.all (!isDelimiter ·) = true)
    (h : (clauseOf keyword).Accepts start captures stop) :
    Nonempty (Quotation start captures stop) := by
  refine quotation_of_accepts hkeyword hfirst hletters
    [someBlanks, typeWord, short isClauseChar, boundary, word "from", blanks] [] ?_ (by simp) h
  intro pattern hpattern
  simp only [List.mem_cons, List.not_mem_nil, or_false] at hpattern
  rcases hpattern with rfl | rfl | rfl | rfl | rfl | rfl
  · exact staysIn_someBlanks
  · exact staysIn_typeWord
  · exact staysIn_clauseChars
  · trivial
  · exact staysIn_word (by decide)
  · exact not_isDelimiter_of_isBlank

theorem quotation_of_accepts_callOf {keyword : String} {first : Char} {letters : List Char}
    (hkeyword : keyword.toList = first :: letters) (hfirst : first.isAlpha = true)
    (hletters : letters.all (!isDelimiter ·) = true)
    (h : (callOf keyword).Accepts start captures stop) :
    Nonempty (Quotation start captures stop) := by
  refine quotation_of_accepts hkeyword hfirst hletters [blanks, word "(", blanks]
    [blanks, word ")"] ?_ ?_ h
  · have hblanks := not_isDelimiter_of_isBlank
    intro pattern hpattern
    simp only [List.mem_cons, List.not_mem_nil, or_false] at hpattern
    rcases hpattern with rfl | rfl | rfl
    · exact hblanks
    · exact staysIn_word (by decide)
    · exact hblanks
  · intro pattern hpattern
    simp only [List.mem_cons, List.not_mem_nil, or_false] at hpattern
    rcases hpattern with rfl | rfl
    · exact not_isAlpha_of_isBlank
    · exact staysIn_word (by decide)

/-- Every form of references describes pieces of text with one quoted group. -/
theorem quotation_of_form {form : ReferenceKind × Pattern} (hform : form ∈ forms)
    (h : form.2.Accepts start captures stop) : Nonempty (Quotation start captures stop) := by
  have himport : "import".toList = 'i' :: "mport".toList := by decide
  have hexport : "export".toList = 'e' :: "xport".toList := by decide
  have hrequire : "require".toList = 'r' :: "equire".toList := by decide
  simp only [forms, List.mem_cons, List.not_mem_nil, or_false] at hform
  rcases hform with rfl | rfl | rfl | rfl | rfl
  · exact quotation_of_accepts_clauseOf himport (by decide) (by decide) h
  · refine quotation_of_accepts himport (by decide) (by decide) [blanks] [] ?_ (by simp) h
    intro pattern hpattern
    rw [List.mem_singleton.mp hpattern]
    exact not_isDelimiter_of_isBlank
  · exact quotation_of_accepts_clauseOf hexport (by decide) (by decide) h
  · exact quotation_of_accepts_callOf himport (by decide) (by decide) h
  · exact quotation_of_accepts_callOf hrequire (by decide) (by decide) h

end Reference

/-! ## Quoted groups of a masked text -/

namespace Quotation

variable {start stop : Cursor} {captures : Captures} {source : List Char}

theorem text_eq {text : List Char} (quotation : Quotation start captures stop)
    (hstart : start ∈ Cursor.places text) :
    ∃ before, start.offset = Text.byteSize before ∧
      text = before ++ quotation.first :: (quotation.lead ++ quotation.quote ::
        (quotation.inside ++ quotation.quote :: (quotation.trail ++ stop.rest))) := by
  obtain ⟨before, htext, hoffset⟩ := Cursor.eq_append_of_mem_places hstart
  refine ⟨before, hoffset, htext.trans ?_⟩
  rw [quotation.reads_lead.rest_eq, quotation.reads_inside.rest_eq, quotation.reads_trail.rest_eq]
  simp

theorem before_opening (quotation : Quotation start captures stop) :
    quotation.opening.before = some quotation.quote := by
  rw [quotation.reads_lead.before_eq]
  simp [List.getLast?_cons]

/-- The quoted group is the inside of a literal of the source, blanked as a whole. -/
theorem exists_literal (quotation : Quotation start captures stop)
    (hstart : start ∈ Cursor.places (maskChars source)) :
    ∃ literal : Literal source, quotation.opening.offset = literal.offset ∧
      quotation.closing.offset = literal.offset + Text.byteSize literal.inside ∧
      '\n' ∉ literal.inside ∧ ∀ c ∈ quotation.inside, c = ' ' ∨ c = '\r' := by
  obtain ⟨before, hbefore, hmasked⟩ := quotation.text_eq hstart
  have hfirst : quotation.first ≠ ' ' ∧ quotation.first ≠ '\n' ∧ quotation.first ≠ '\r' ∧
      isDelimiter quotation.first = false := by
    have halpha := quotation.first_isAlpha
    refine ⟨?_, ?_, ?_, isDelimiter_eq_false_of_isAlpha halpha⟩
    all_goals
      intro heq
      rw [heq] at halpha
      cases halpha
  obtain ⟨literal, hoffset, hsize, hline, hblank⟩ := exists_literal_of_masked hmasked hfirst
    quotation.lead_plain quotation.isQuote quotation.inside_plain
  refine ⟨literal, ?_, ?_, hline, hblank⟩
  · rw [hoffset, quotation.reads_lead.offset_eq, hbefore, Text.byteSize_append]
  · rw [quotation.reads_inside.offset_eq, hsize, hoffset, quotation.reads_lead.offset_eq, hbefore,
      Text.byteSize_append]

/-- No letter stands in a quoted group of a masked text or behind it. -/
theorem isAlpha_eq_false_of_mem (quotation : Quotation start captures stop)
    (hstart : start ∈ Cursor.places (maskChars source)) {c : Char}
    (hc : c ∈ quotation.quote :: (quotation.inside ++ quotation.quote :: quotation.trail)) :
    c.isAlpha = false := by
  obtain ⟨literal, -, -, -, hblank⟩ := quotation.exists_literal hstart
  have hquote : quotation.quote.isAlpha = false := by
    rcases quotation.isQuote with h | h <;> rw [h] <;> rfl
  simp only [List.mem_cons, List.mem_append] at hc
  rcases hc with rfl | hc | rfl | hc
  · exact hquote
  · rcases hblank c hc with rfl | rfl <;> rfl
  · exact hquote
  · exact quotation.trail_plain c hc

theorem reads (quotation : Quotation start captures stop) :
    start.Reads (quotation.first :: (quotation.lead ++ quotation.quote ::
      (quotation.inside ++ quotation.quote :: quotation.trail))) stop := by
  simpa using (quotation.reads_lead.append quotation.reads_inside).append quotation.reads_trail

theorem offset_lt (quotation : Quotation start captures stop) : start.offset < stop.offset := by
  have hpos := quotation.first.utf8Size_pos
  rw [quotation.reads.offset_eq, Text.byteSize_cons]
  omega

section Overlap

variable {start' stop' : Cursor} {captures' : Captures}

/-- Where a group ends is determined by where it begins. -/
theorem captures_eq_of_opening_eq (first : Quotation start captures stop)
    (second : Quotation start' captures' stop') (hopening : first.opening = second.opening) :
    captures = captures' := by
  have hquote : first.quote = second.quote := by
    have hbefore := first.before_opening
    rw [hopening, second.before_opening] at hbefore
    exact (Option.some.inj hbefore).symm
  have hgroup := (first.reads_inside.rest_eq.symm.trans (by rw [hopening])).trans
    second.reads_inside.rest_eq
  rw [first.reads_trail.rest_eq, second.reads_trail.rest_eq] at hgroup
  obtain ⟨hinside, -⟩ := eq_of_append_cons_eq (· == first.quote)
    (fun c hc => by simpa using (first.inside_plain c hc).1)
    (fun c hc => by simpa [hquote] using (second.inside_plain c hc).1)
    (by simp) (by simp [hquote]) hgroup
  have hclosing : first.closing = second.closing := by
    apply first.reads_inside.stop_unique
    rw [hopening, hinside]
    exact second.reads_inside
  rw [first.captures_eq, second.captures_eq, hopening, hclosing]

/-- A piece that begins inside another one has the same group: its first letter stands in front of
the outer group, and from there on the first delimiter is the same for both. -/
theorem captures_eq_of_begins_inside (outer : Quotation start captures stop)
    (inner : Quotation start' captures' stop') (hstart : start ∈ Cursor.places (maskChars source))
    (hstart' : start' ∈ Cursor.places (maskChars source)) (hbehind : start.offset ≤ start'.offset)
    (hinside : start'.offset < stop.offset) : captures = captures' := by
  obtain ⟨piece, hpiece⟩ := Cursor.exists_reads_of_offset_le hstart hstart' hbehind
  obtain ⟨more, hmore⟩ := Cursor.exists_reads_of_offset_le hstart'
    (Cursor.mem_places_of_reads hstart outer.reads) (Nat.le_of_lt hinside)
  have hrest := hmore.rest_eq.symm.trans inner.reads_lead.rest_eq
  obtain ⟨more, rfl⟩ : ∃ tail, more = inner.first :: tail := by
    cases more with
    | nil =>
        rw [hmore.eq_of_nil] at hinside
        exact (Nat.lt_irrefl _ hinside).elim
    | cons c tail => exact ⟨tail, by rw [(List.cons.inj hrest).1]⟩
  have hwhole : (outer.first :: outer.lead) ++ (outer.quote ::
      (outer.inside ++ outer.quote :: outer.trail)) = piece ++ inner.first :: more := by
    simpa using outer.reads.unique (hpiece.append hmore)
  have hfirst : inner.first ∉ outer.quote :: (outer.inside ++ outer.quote :: outer.trail) := by
    intro hmem
    have := outer.isAlpha_eq_false_of_mem hstart hmem
    rw [inner.first_isAlpha] at this
    cases this
  obtain ⟨lead, hlead, rfl⟩ := exists_of_append_eq_append_cons hfirst hwhole
  have hplain : ∀ c ∈ lead, isDelimiter c = false := by
    intro c hc
    apply outer.lead_plain c
    cases piece with
    | nil => rwa [(List.cons.inj hlead).2]
    | cons d piece =>
        rw [(List.cons.inj hlead).2]
        simp [hc]
  have hsame : lead ++ outer.quote :: (outer.inside ++ outer.quote :: outer.trail ++ stop.rest) =
      inner.lead ++ inner.quote :: inner.opening.rest := by
    simpa using hrest
  obtain ⟨rfl, hquote⟩ := eq_of_append_cons_eq isDelimiter hplain inner.lead_plain
    (isDelimiter_of_isQuote outer.isQuote) (isDelimiter_of_isQuote inner.isQuote) hsame
  apply outer.captures_eq_of_opening_eq inner
  have hreads := hpiece.append inner.reads_lead
  rw [← List.cons_append, ← List.append_assoc, ← hlead, ← hquote] at hreads
  exact outer.reads_lead.stop_unique hreads

end Overlap

end Quotation

end LayerLint.Source
