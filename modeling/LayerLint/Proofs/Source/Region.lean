import LayerLint.Source.Mask

/-! # Regions along a text

A text that is cut in two is masked part by part: the second part begins in the region that the
first one ends in. What is seen in a masked text tells about the source: a character other than a
space stands there in the source too, no literal begins before a delimiter is seen, and one that
has begun goes on until its quote or a line break is seen.
-/

namespace LayerLint.Source

namespace Region

variable {following : Option Char} {region : Region}

theorem after_append (following : Option Char) (region : Region) (first second : List Char) :
    after following region (first ++ second) =
      after following (after (second.head?.or following) region first) second := by
  induction first generalizing region with
  | nil => rfl
  | cons c rest ih => simp only [List.cons_append, after, ih, List.head?_append, Option.or_assoc]

end Region

variable {following : Option Char} {region : Region}

/-- The masked form of a text that begins in the given region and is followed by the character
`following`. -/
def maskUntil (following : Option Char) : Region → List Char → List Char
  | _, [] => []
  | region, c :: rest =>
      (if region.shows c (rest.head?.or following) then [c] else blank c) ++
        maskUntil following (region.next c (rest.head?.or following)) rest

theorem maskFrom_append (region : Region) (first second : List Char) :
    maskFrom region (first ++ second) = maskUntil second.head? region first ++
      maskFrom (Region.after second.head? region first) second := by
  induction first generalizing region with
  | nil => rfl
  | cons c rest ih =>
      simp only [List.cons_append, maskFrom, maskUntil, Region.after, ih, List.head?_append,
        List.append_assoc]

theorem maskUntil_append (following : Option Char) (region : Region) (first second : List Char) :
    maskUntil following region (first ++ second) =
      maskUntil (second.head?.or following) region first ++
        maskUntil following (Region.after (second.head?.or following) region first) second := by
  induction first generalizing region with
  | nil => rfl
  | cons c rest ih =>
      simp only [List.cons_append, maskUntil, Region.after, ih, List.head?_append, Option.or_assoc,
        List.append_assoc]

theorem maskUntil_none (region : Region) (text : List Char) :
    maskUntil none region text = maskFrom region text := by
  induction text generalizing region with
  | nil => rfl
  | cons c rest ih => rw [maskUntil, maskFrom, Option.or_none, ih]

theorem maskUntil_concat (following : Option Char) (region : Region) (first : List Char) (c : Char) :
    maskUntil following region (first ++ [c]) = maskUntil (some c) region first ++
      if (Region.after (some c) region first).shows c following then [c] else blank c := by
  rw [maskUntil_append]
  exact congrArg _ (List.append_nil _)

theorem Region.after_concat (following : Option Char) (region : Region) (first : List Char)
    (c : Char) : after following region (first ++ [c]) =
      (after (some c) region first).next c following :=
  after_append following region first [c]

@[simp] theorem byteSize_maskUntil (following : Option Char) (region : Region) (text : List Char) :
    Text.byteSize (maskUntil following region text) = Text.byteSize text := by
  induction text generalizing region with
  | nil => rfl
  | cons c rest ih =>
      rw [maskUntil, Text.byteSize_append, ih, Text.byteSize_cons]
      split
      · simp
      · rw [byteSize_blank]

/-! ## What is seen stands in the source -/

theorem eq_of_seen_or_blank {shown : Bool} {c seen : Char} {before more : List Char}
    (hseen : seen ≠ ' ') (h : (if shown then [c] else blank c) = before ++ seen :: more) :
    before = [] ∧ seen = c ∧ more = [] ∧ (shown = true ∨ c = '\n' ∨ c = '\r') := by
  have hsingle (hc : [c] = before ++ seen :: more) : before = [] ∧ seen = c ∧ more = [] := by
    cases before with
    | nil => simp_all
    | cons first rest => simp at hc
  split at h
  next hshown =>
    obtain ⟨hbefore, heq, hmore⟩ := hsingle h
    exact ⟨hbefore, heq, hmore, .inl hshown⟩
  next =>
    unfold blank at h
    split at h
    next hbreak =>
      obtain ⟨hbefore, heq, hmore⟩ := hsingle h
      exact ⟨hbefore, heq, hmore, .inr hbreak⟩
    next =>
      have hmem : seen ∈ List.replicate c.utf8Size ' ' := by rw [h]; simp
      exact (hseen (List.eq_of_mem_replicate hmem)).elim

/-- A character that a masked text shows, other than a space, stands in the source after a text
whose masked form precedes it; it is seen there, or it breaks the line. -/
theorem exists_of_maskFrom_eq_append {text before after : List Char} {c : Char} (hc : c ≠ ' ')
    (h : maskFrom region text = before ++ c :: after) :
    ∃ first rest, text = first ++ c :: rest ∧ before = maskUntil (some c) region first ∧
      ((Region.after (some c) region first).shows c rest.head? = true ∨ c = '\n' ∨ c = '\r') ∧
      after = maskFrom ((Region.after (some c) region first).next c rest.head?) rest := by
  induction text generalizing region before with
  | nil => simp [maskFrom] at h
  | cons d rest ih =>
      rw [maskFrom] at h
      have hbehind (more : List Char)
          (hbefore : before = (if region.shows d rest.head? then [d] else blank d) ++ more)
          (hmore : maskFrom (region.next d rest.head?) rest = more ++ c :: after) :
          ∃ first tail, d :: rest = first ++ c :: tail ∧
            before = maskUntil (some c) region first ∧
            ((Region.after (some c) region first).shows c tail.head? = true ∨
              c = '\n' ∨ c = '\r') ∧
            after = maskFrom ((Region.after (some c) region first).next c tail.head?) tail := by
        obtain ⟨first, tail, rfl, rfl, hseen, rfl⟩ := ih hmore
        refine ⟨d :: first, tail, rfl, ?_, ?_, ?_⟩
        · simp [hbefore, maskUntil, List.head?_append]
        · simpa [Region.after, List.head?_append] using hseen
        · simp [Region.after, List.head?_append]
      rcases List.append_eq_append_iff.mp h with ⟨more, hbefore, hmore⟩ | ⟨more, hpiece, hmore⟩
      · exact hbehind more hbefore hmore
      · cases more with
        | nil => exact hbehind [] (by simpa using hpiece.symm) (by simpa using hmore.symm)
        | cons seen more =>
            -- the place is that of the first character itself
            obtain ⟨rfl, rest_eq⟩ := List.cons.inj hmore
            obtain ⟨rfl, rfl, rfl, hseen⟩ := eq_of_seen_or_blank hc hpiece
            exact ⟨[], rest, rfl, rfl, hseen, rest_eq⟩

/-! ## Literals begin and end where their delimiters are seen -/

/-- Whether a character opens or closes a literal or a template. -/
def isDelimiter (c : Char) : Bool :=
  c == '\'' || c == '"' || c == backTick

namespace Region

/-- Whether a character of the region lies outside all literals: in the code or in a comment. -/
def isOutside : Region → Bool
  | code | lineComment | blockOpen | blockComment | blockClose => true
  | quoted _ | quotedEscape _ | template | templateEscape => false

/-- Whether a character of the region lies inside a literal that the quote closes. -/
def isInside (quote : Char) (region : Region) : Bool :=
  region == quoted quote || region == quotedEscape quote

/-- Outside all literals a character that does not show as a delimiter begins no literal. -/
theorem isOutside_next {c : Char} (hregion : region.isOutside = true)
    (hseen : region.shows c following = true → isDelimiter c = false) :
    (region.next c following).isOutside = true := by
  cases region with
  | code =>
      by_cases hshown : code.shows c following = true
      · have hnone := hseen hshown
        simp only [isDelimiter, Bool.or_eq_false_iff, beq_eq_false_iff_ne] at hnone
        simp only [next, hnone, or_self, if_false]
        repeat' split
        all_goals rfl
      · simp only [shows_code, Bool.not_eq_true, Bool.not_eq_false', Bool.and_eq_true, beq_iff_eq,
          Bool.or_eq_true] at hshown
        obtain ⟨rfl, rfl | rfl⟩ := hshown
        · rfl
        · rfl
  | lineComment => simp only [next]; split <;> rfl
  | blockOpen => rfl
  | blockComment => simp only [next]; split <;> rfl
  | blockClose => rfl
  | quoted quote => cases hregion
  | quotedEscape quote => cases hregion
  | template => cases hregion
  | templateEscape => cases hregion

theorem eq_code_of_isOutside {c : Char} (hregion : region.isOutside = true)
    (hshown : region.shows c following = true) : region = .code := by
  cases region with
  | code => rfl
  | lineComment | blockOpen | blockComment | blockClose => cases hshown
  | quoted quote | quotedEscape quote | template | templateEscape => cases hregion

/-- Inside a literal that its quote does not close and no line break ends, the literal goes on. -/
theorem isInside_next {quote c : Char} (hregion : region.isInside quote = true)
    (hseen : region.shows c following = true → c ≠ quote) (hline : c ≠ '\n') :
    (region.next c following).isInside quote = true := by
  simp only [isInside, Bool.or_eq_true, beq_iff_eq] at hregion
  rcases hregion with rfl | rfl
  · have hquote : c ≠ quote := fun heq => hseen (by simp [heq]) heq
    simp only [next, hquote, hline, or_self, if_false]
    split <;> simp [isInside]
  · simp [next, isInside]

/-- The only region inside a literal that shows its quote is the one that ends there. -/
theorem eq_quoted_of_isInside {quote c : Char} (hregion : region.isInside quote = true)
    (hshown : region.shows c following = true) : region = .quoted quote ∧ c = quote := by
  simp only [isInside, Bool.or_eq_true, beq_iff_eq] at hregion
  rcases hregion with rfl | rfl
  · exact ⟨rfl, by simpa using hshown⟩
  · cases hshown

end Region

theorem mem_maskUntil_cons {c : Char} {rest : List Char}
    (hseen : region.shows c (rest.head?.or following) = true ∨ c = '\n' ∨ c = '\r') :
    c ∈ maskUntil following region (c :: rest) := by
  rw [maskUntil]
  refine List.mem_append_left _ ?_
  split
  next => exact List.mem_singleton_self c
  next hshown => rw [blank, if_pos (hseen.resolve_left hshown)]; exact List.mem_singleton_self c

theorem mem_maskUntil_cons_of_mem {c d : Char} {rest : List Char}
    (hmem : d ∈ maskUntil following (region.next c (rest.head?.or following)) rest) :
    d ∈ maskUntil following region (c :: rest) := by
  rw [maskUntil]
  exact List.mem_append_right _ hmem

/-- A text that shows no delimiter ends outside all literals if it begins there. -/
theorem Region.isOutside_after {text : List Char} (hregion : region.isOutside = true)
    (hseen : ∀ c ∈ maskUntil following region text, isDelimiter c = false) :
    (Region.after following region text).isOutside = true := by
  induction text generalizing region with
  | nil => exact hregion
  | cons c rest ih =>
      have hnext := isOutside_next hregion fun hshown =>
        hseen c (mem_maskUntil_cons (.inl hshown))
      exact ih hnext fun d hd => hseen d (mem_maskUntil_cons_of_mem hd)

/-- A text inside a literal that shows neither its quote nor a line feed stays inside. -/
theorem Region.isInside_after {quote : Char} {text : List Char}
    (hregion : region.isInside quote = true)
    (hseen : ∀ c ∈ maskUntil following region text, c ≠ quote ∧ c ≠ '\n') :
    (Region.after following region text).isInside quote = true := by
  induction text generalizing region with
  | nil => exact hregion
  | cons c rest ih =>
      have hline : c ≠ '\n' := fun heq => (hseen c (mem_maskUntil_cons (.inr (.inl heq)))).2 heq
      have hnext := isInside_next hregion
        (fun hshown => (hseen c (mem_maskUntil_cons (.inl hshown))).1) hline
      exact ih hnext fun d hd => hseen d (mem_maskUntil_cons_of_mem hd)

theorem mem_maskUntil_of_mem {text : List Char} (hmem : '\n' ∈ text) :
    '\n' ∈ maskUntil following region text := by
  induction text generalizing region with
  | nil => cases hmem
  | cons c rest ih =>
      rcases List.mem_cons.mp hmem with rfl | hmem
      · exact mem_maskUntil_cons (.inr (.inl rfl))
      · exact mem_maskUntil_cons_of_mem (ih hmem)

/-- A text inside a literal that does not show the quote shows nothing at all. -/
theorem eq_of_mem_maskUntil_of_isInside {quote seen : Char} {text : List Char}
    (hregion : region.isInside quote = true)
    (hseen : ∀ c ∈ maskUntil following region text, c ≠ quote ∧ c ≠ '\n')
    (hmem : seen ∈ maskUntil following region text) : seen = ' ' ∨ seen = '\r' := by
  induction text generalizing region with
  | nil => cases hmem
  | cons c rest ih =>
      have hhidden : ¬region.shows c (rest.head?.or following) = true := fun hshown =>
        (hseen c (mem_maskUntil_cons (.inl hshown))).1
          (Region.eq_quoted_of_isInside hregion hshown).2
      have hline : c ≠ '\n' := fun heq => (hseen c (mem_maskUntil_cons (.inr (.inl heq)))).2 heq
      have hpiece := hmem
      rw [maskUntil, if_neg hhidden, blank] at hpiece
      rcases List.mem_append.mp hpiece with hblank | hrest
      · split at hblank
        next hbreak =>
          exact .inr ((List.mem_singleton.mp hblank).trans (hbreak.resolve_left hline))
        next => exact .inl (List.eq_of_mem_replicate hblank)
      · exact ih (Region.isInside_next hregion (fun hshown => (hhidden hshown).elim) hline)
          (fun d hd => hseen d (mem_maskUntil_cons_of_mem hd)) hrest

/-! ## Regions that occur -/

namespace Region

/-- Whether the quote of the region, if it has one, is one that opens string literals. -/
def hasQuote : Region → Bool
  | quoted quote | quotedEscape quote => quote == '\'' || quote == '"'
  | _ => true

theorem hasQuote_next {c : Char} (hregion : region.hasQuote = true) :
    (region.next c following).hasQuote = true := by
  cases region with
  | code =>
      simp only [next]
      repeat' split
      next => rfl
      next => rfl
      next hquote => simpa [hasQuote] using hquote
      next => rfl
      next => rfl
  | lineComment => simp only [next]; split <;> rfl
  | blockOpen => rfl
  | blockComment => simp only [next]; split <;> rfl
  | blockClose => rfl
  | quoted quote =>
      simp only [next]
      repeat' split
      next => exact hregion
      next => rfl
      next => exact hregion
  | quotedEscape quote => exact hregion
  | template =>
      simp only [next]
      repeat' split
      all_goals rfl
  | templateEscape => rfl

theorem hasQuote_after {text : List Char} (hregion : region.hasQuote = true) :
    (after following region text).hasQuote = true := by
  induction text generalizing region with
  | nil => exact hregion
  | cons c rest ih => exact ih (hasQuote_next hregion)

/-- What is seen and is no delimiter is code. -/
theorem eq_code_of_shows {c : Char} (hregion : region.hasQuote = true)
    (hshown : region.shows c following = true) (hdelimiter : isDelimiter c = false) :
    region = .code := by
  simp only [isDelimiter, Bool.or_eq_false_iff, beq_eq_false_iff_ne] at hdelimiter
  cases region with
  | code => rfl
  | lineComment | blockOpen | blockComment | blockClose => cases hshown
  | quotedEscape quote | templateEscape => cases hshown
  | quoted quote =>
      obtain rfl : c = quote := by simpa using hshown
      simp [hasQuote, hdelimiter] at hregion
  | template =>
      have htick : c = backTick := by simpa using hshown
      exact (hdelimiter.2 htick).elim

end Region

end LayerLint.Source
