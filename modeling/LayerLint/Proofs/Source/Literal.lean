import LayerLint.Proofs.Source.Region
import LayerLint.Proofs.Text.Reading

/-! # String literals of the code

A literal of a source text begins at a quote in the code and lasts until the same quote closes it.
Where the masked text shows two equal quotes without that quote and without a line feed between
them, and an ordinary character before them without a delimiter in between, the source has a
literal at the same bytes.
-/

namespace LayerLint.Source

/-- The region of the first character of `rest` in the text `before ++ rest`. -/
def regionAt (before rest : List Char) : Region :=
  Region.after rest.head? .code before

/-- A string literal in the code of a source text. -/
structure Literal (source : List Char) where
  before : List Char
  quote : Char
  inside : List Char
  rest : List Char
  source_eq : source = before ++ quote :: (inside ++ quote :: rest)
  isQuote : quote = '\'' ∨ quote = '"'
  /-- The first quote is read in the code, and opens the literal. -/
  opens : regionAt before (quote :: (inside ++ quote :: rest)) = .code
  /-- Every character of the inside is read while the literal is open. -/
  stays : ∀ first c second, inside = first ++ c :: second →
    (regionAt (before ++ quote :: first) (c :: (second ++ quote :: rest))).isInside quote = true
  /-- The second quote is read as one that may close the literal. -/
  closes : regionAt (before ++ quote :: inside) (quote :: rest) = .quoted quote
  /-- The code goes on behind it. -/
  ends : regionAt (before ++ quote :: (inside ++ [quote])) rest = .code

namespace Literal

variable {source : List Char}

/-- The offset of the first character inside the literal. -/
def offset (literal : Literal source) : Nat :=
  Text.byteSize (literal.before ++ [literal.quote])

/-- The inside of a literal is what stands at its bytes, and both of its ends are boundaries. -/
theorem slice?_offset (literal : Literal source) :
    Text.slice? source literal.offset (literal.offset + Text.byteSize literal.inside) =
      some literal.inside := by
  have hsource : source = (literal.before ++ [literal.quote]) ++
      (literal.inside ++ literal.quote :: literal.rest) := by
    simpa using literal.source_eq
  exact Text.slice?_of_split hsource rfl rfl

/-- Behind a quote that closes a literal the code goes on, so no other literal reaches there. -/
theorem not_inside_eq (first second : Literal source) (hbefore : first.before = second.before)
    (hquote : first.quote = second.quote) (more : List Char) :
    first.inside ≠ second.inside ++ first.quote :: more := by
  intro hinside
  have hends := second.ends
  have hrest : second.rest = more ++ first.quote :: first.rest := by
    have hsource := first.source_eq.symm.trans second.source_eq
    rw [hbefore, hinside, ← hquote] at hsource
    simpa using hsource.symm
  rw [hrest, ← hbefore, ← hquote] at hends
  cases more with
  | nil =>
      have hcloses := first.closes
      rw [hinside, ← List.nil_append (first.quote :: first.rest), hends] at hcloses
      cases hcloses
  | cons c more =>
      have hstays := first.stays (second.inside ++ [first.quote]) c more (by rw [hinside]; simp)
      rw [List.cons_append] at hends
      rw [hends] at hstays
      cases hstays

/-- At an offset there is one literal. -/
theorem inside_eq_of_offset_eq (first second : Literal source)
    (h : first.offset = second.offset) : first.inside = second.inside := by
  have hsource : (first.before ++ [first.quote]) ++ (first.inside ++ first.quote :: first.rest) =
      (second.before ++ [second.quote]) ++ (second.inside ++ second.quote :: second.rest) := by
    simpa using first.source_eq.symm.trans second.source_eq
  have hlead := Text.eq_of_append_eq_append hsource h
  rw [hlead] at hsource
  obtain ⟨hbefore, hquote⟩ := List.append_inj' hlead rfl
  have hquote := List.singleton_inj.mp hquote
  have hrest := List.append_cancel_left hsource
  rcases List.append_eq_append_iff.mp hrest with ⟨more, hinside, hmore⟩ | ⟨more, hinside, hmore⟩
  · cases more with
    | nil => rw [hinside, List.append_nil]
    | cons c more =>
        obtain ⟨rfl, -⟩ := List.cons.inj hmore
        rw [hquote] at hinside
        exact (not_inside_eq second first hbefore.symm hquote.symm more hinside).elim
  · cases more with
    | nil => rw [hinside, List.append_nil]
    | cons c more =>
        obtain ⟨rfl, -⟩ := List.cons.inj hmore
        rw [← hquote] at hinside
        exact (not_inside_eq first second hbefore hquote more hinside).elim

end Literal

theorem Region.code_next_quote {quote : Char} (hquote : quote = '\'' ∨ quote = '"')
    (following : Option Char) : code.next quote following = .quoted quote := by
  rcases hquote with rfl | rfl <;> simp [next]

/-- What is seen from the first quote of a literal on. -/
def Literal.seenFrom {source : List Char} (literal : Literal source) : List Char :=
  literal.quote :: maskFrom (.quoted literal.quote)
    (literal.inside ++ literal.quote :: literal.rest)

theorem Literal.maskChars_eq {source : List Char} (literal : Literal source) : maskChars source =
    maskUntil (some literal.quote) .code literal.before ++ literal.seenFrom := by
  obtain ⟨before, quote, inside, rest, rfl, hquote, hopens, -, -, -⟩ := literal
  rw [regionAt, List.head?_cons] at hopens
  have hshown : Region.code.shows quote (inside ++ quote :: rest).head? = true := by
    rcases hquote with rfl | rfl <;> rfl
  rw [maskChars, maskFrom_append, List.head?_cons, hopens, maskFrom, hshown, if_pos rfl,
    Region.code_next_quote hquote]
  rfl

theorem Region.quoted_next_quote {quote : Char} (hquote : quote = '\'' ∨ quote = '"')
    (following : Option Char) : (quoted quote).next quote following = .code := by
  rcases hquote with rfl | rfl <;> simp [next]

theorem regionAt_append_quote {before rest : List Char} {quote : Char}
    (hquote : quote = '\'' ∨ quote = '"') (hopens : regionAt before (quote :: rest) = .code)
    (chars more : List Char) :
    regionAt (before ++ quote :: chars) more = Region.after more.head? (.quoted quote) chars := by
  rw [regionAt, List.head?_cons] at hopens
  rw [regionAt, Region.after_append, List.head?_cons, Option.some_or, hopens, Region.after,
    Region.code_next_quote hquote]

/-- A literal that has been opened: the masked text shows its quote again, and before that neither
the quote nor a line feed. -/
theorem exists_closing_quote {quote : Char} (hquote : quote = '\'' ∨ quote = '"')
    {text inside tail : List Char}
    (hmasked : maskFrom (.quoted quote) text = inside ++ quote :: tail)
    (hinside : ∀ c ∈ inside, c ≠ quote ∧ c ≠ '\n') :
    ∃ chars rest, text = chars ++ quote :: rest ∧
      inside = maskUntil (some quote) (.quoted quote) chars ∧
      Region.after (some quote) (.quoted quote) chars = .quoted quote ∧ '\n' ∉ chars := by
  have hspace : quote ≠ ' ' := by rcases hquote with rfl | rfl <;> decide
  have hopen : (Region.quoted quote).isInside quote = true := by simp [Region.isInside]
  obtain ⟨chars, rest, rfl, rfl, hseen, -⟩ := exists_of_maskFrom_eq_append hspace hmasked
  have hshown : (Region.after (some quote) (.quoted quote) chars).shows quote rest.head? = true :=
    hseen.resolve_right (by rcases hquote with rfl | rfl <;> decide)
  refine ⟨chars, rest, rfl, rfl, ?_, fun hmem => ?_⟩
  · exact (Region.eq_quoted_of_isInside (Region.isInside_after hopen hinside) hshown).1
  · exact (hinside _ (mem_maskUntil_of_mem hmem)).2 rfl

/-- In front of a quote that is seen behind an ordinary character and no delimiter, the source is
in the code. -/
theorem exists_opening_quote {source before lead tail : List Char} {first quote : Char}
    (hmasked : maskChars source = before ++ first :: (lead ++ quote :: tail))
    (hfirst : first ≠ ' ' ∧ first ≠ '\n' ∧ first ≠ '\r' ∧ isDelimiter first = false)
    (hlead : ∀ c ∈ lead, isDelimiter c = false) (hquote : quote = '\'' ∨ quote = '"') :
    ∃ chars rest, source = chars ++ quote :: rest ∧
      Text.byteSize chars = Text.byteSize (before ++ first :: lead) ∧
      regionAt chars (quote :: rest) = .code ∧ tail = maskFrom (.quoted quote) rest := by
  have hspace : quote ≠ ' ' := by rcases hquote with rfl | rfl <;> decide
  obtain ⟨chars, rest, rfl, rfl, hseen, hrest⟩ := exists_of_maskFrom_eq_append hfirst.1 hmasked
  have hshown : (Region.after (some first) .code chars).shows first rest.head? = true :=
    hseen.resolve_right (by simp [hfirst])
  have hcode := Region.eq_code_of_shows (Region.hasQuote_after rfl) hshown hfirst.2.2.2
  rw [hcode] at hrest hshown
  have hout : (Region.code.next first rest.head?).isOutside = true :=
    Region.isOutside_next rfl fun _ => hfirst.2.2.2
  obtain ⟨more, rest, rfl, rfl, hseen, rfl⟩ := exists_of_maskFrom_eq_append hspace hrest.symm
  have hquoted : Region.code.next quote rest.head? = .quoted quote :=
    Region.code_next_quote hquote _
  have hregion : Region.after (some quote)
      (Region.code.next first (more ++ quote :: rest).head?) more = .code :=
    Region.eq_code_of_isOutside (Region.isOutside_after hout hlead)
      (hseen.resolve_right (by rcases hquote with rfl | rfl <;> decide))
  rw [hregion, hquoted]
  refine ⟨chars ++ first :: more, rest, by simp, by simp, ?_, rfl⟩
  have hhead : (more ++ quote :: rest).head? = more.head?.or (some quote) := by
    simp [List.head?_append]
  rw [regionAt, List.head?_cons, Region.after_append, List.head?_cons, Option.or_some,
    Option.getD_some, hcode, Region.after, ← hhead, hregion]

/-- Two quotes of the masked text that the source has a literal between. -/
theorem exists_literal_of_masked {source before lead inside tail : List Char}
    {first quote : Char}
    (hmasked : maskChars source = before ++ first :: (lead ++ quote :: (inside ++ quote :: tail)))
    (hfirst : first ≠ ' ' ∧ first ≠ '\n' ∧ first ≠ '\r' ∧ isDelimiter first = false)
    (hlead : ∀ c ∈ lead, isDelimiter c = false) (hquote : quote = '\'' ∨ quote = '"')
    (hinside : ∀ c ∈ inside, c ≠ quote ∧ c ≠ '\n') :
    ∃ literal : Literal source,
      literal.offset = Text.byteSize (before ++ first :: (lead ++ [quote])) ∧
      Text.byteSize literal.inside = Text.byteSize inside ∧ '\n' ∉ literal.inside ∧
      ∀ c ∈ inside, c = ' ' ∨ c = '\r' := by
  obtain ⟨chars, rest, rfl, hsize, hopens, htail⟩ :=
    exists_opening_quote hmasked hfirst hlead hquote
  obtain ⟨content, rest, rfl, rfl, hcloses, hline⟩ :=
    exists_closing_quote hquote htail.symm hinside
  have hopen : (Region.quoted quote).isInside quote = true := by simp [Region.isInside]
  refine ⟨{
    before := chars
    quote
    inside := content
    rest
    source_eq := rfl
    isQuote := hquote
    opens := hopens
    stays := ?_
    closes := ?_
    ends := ?_ }, ?_, ?_, hline, fun c hmem => ?_⟩
  · rintro first c second rfl
    rw [regionAt_append_quote hquote hopens]
    refine Region.isInside_after hopen fun d hd => hinside d ?_
    rw [maskUntil_append]
    exact List.mem_append_left _ hd
  · rw [regionAt_append_quote hquote hopens]
    exact hcloses
  · rw [regionAt_append_quote hquote hopens, Region.after_append, List.head?_cons,
      Option.some_or, hcloses]
    exact Region.quoted_next_quote hquote rest.head?
  · simp only [Literal.offset, Text.byteSize_append, Text.byteSize_cons, hsize]
    omega
  · exact (byteSize_maskUntil _ _ _).symm
  · exact eq_of_mem_maskUntil_of_isInside hopen hinside hmem

end LayerLint.Source
