import LayerLint.Json.Commented
import LayerLint.Json.Document
import LayerLint.Proofs.Json.Lexeme
import LayerLint.Proofs.Text.Blank

/-! # What stripping leaves

Between tokens there may be blanks and comments. Stripping leaves the blanks and the line feeds that
end line comments, and takes nothing away from tokens, apart from commas that the end of a container
follows. A strict text has none of these commas, nor comments, so all of it stays.
-/

namespace LayerLint.Json

open Token (IsBody IsDigits IsNumeral IsScalar IsLexeme isSpace hexDigit? hexUnit? escaped?)

variable {text rest body lexeme : List Char} {token : Token} {tokens : List Token} {c : Char}

/-! ## Gaps -/

/-- A blank or a comment between two tokens. -/
inductive Gap where
  | space (c : Char) (h : isSpace c = true)
  /-- A line comment, and the line feed that ends it. -/
  | lineComment (body : List Char) (h : '\n' ∉ body)
  | blockComment (body : List Char) (h : ¬ ['*', '/'] <:+: body)

namespace Gap

/-- The characters of a gap. -/
def chars : Gap → List Char
  | space c _ => [c]
  | lineComment body _ => '/' :: '/' :: (body ++ ['\n'])
  | blockComment body _ => '/' :: '*' :: (body ++ ['*', '/'])

/-- The blanks that a gap leaves. -/
def spaces : Gap → List Char
  | space c _ => [c]
  | lineComment _ _ => ['\n']
  | blockComment _ _ => []

end Gap

/-- The blanks and comments between two tokens. -/
abbrev Layout := List Gap

namespace Layout

/-- The characters of a layout. -/
def chars (layout : Layout) : List Char := layout.flatMap Gap.chars

/-- The blanks that a layout leaves. -/
def spaces (layout : Layout) : List Char := layout.flatMap Gap.spaces

end Layout

theorem isSpace_of_mem_spaces (layout : Layout) : ∀ c ∈ layout.spaces, isSpace c = true := by
  intro c hc
  obtain ⟨gap, -, hgap⟩ := List.mem_flatMap.mp hc
  cases gap with
  | space d hd =>
      obtain rfl := List.mem_singleton.mp hgap
      exact hd
  | lineComment =>
      obtain rfl := List.mem_singleton.mp hgap
      rfl
  | blockComment => cases hgap

/-! ## Characters outside strings -/

/-- A character that neither opens a comment or a string nor separates. -/
def isInert (c : Char) : Bool :=
  c != '/' && c != '"' && c != ','

theorem ne_slash_of_isInert (h : isInert c = true) : c ≠ '/' := by
  simp only [isInert, Bool.and_eq_true, bne_iff_ne] at h
  exact h.1.1

theorem opensComment_of_ne (h : c ≠ '/') (following : Option Char) :
    Stretch.opensComment c following = false := by
  simp [Stretch.opensComment, h]

theorem stripFrom_inert (h : isInert c = true) (rest : List Char) :
    stripFrom .plain (c :: rest) = c :: stripFrom .plain rest := by
  simp only [isInert, Bool.and_eq_true, bne_iff_ne] at h
  obtain ⟨⟨hslash, hquote⟩, hcomma⟩ := h
  simp [stripFrom, staysIn, Stretch.next, opensComment_of_ne hslash, hquote, hcomma]

theorem stripFrom_append_of_inert (h : ∀ c ∈ lexeme, isInert c = true) (rest : List Char) :
    stripFrom .plain (lexeme ++ rest) = lexeme ++ stripFrom .plain rest := by
  induction lexeme with
  | nil => rfl
  | cons c lexeme ih =>
      obtain ⟨hc, hlexeme⟩ := List.forall_mem_cons.mp h
      rw [List.cons_append, stripFrom_inert hc, ih hlexeme, List.cons_append]

theorem stripFrom_comma (rest : List Char) :
    stripFrom .plain (',' :: rest) =
      if closesNext rest then stripFrom .plain rest else ',' :: stripFrom .plain rest := by
  cases hcloses : closesNext rest <;>
    simp [stripFrom, staysIn, Stretch.next, Stretch.opensComment, hcloses]

theorem significant?_solid (hblank : Text.isBlank c = false) (hslash : c ≠ '/')
    (rest : List Char) : significant? .plain (c :: rest) = some c := by
  simp [significant?, hblank, opensComment_of_ne hslash]

theorem significant?_blank (hblank : Text.isBlank c = true) (hinert : isInert c = true)
    (rest : List Char) : significant? .plain (c :: rest) = significant? .plain rest := by
  simp only [isInert, Bool.and_eq_true, bne_iff_ne] at hinert
  obtain ⟨⟨hslash, hquote⟩, -⟩ := hinert
  simp [significant?, hblank, Stretch.next, opensComment_of_ne hslash, hquote]

/-! ## Comments -/

theorem stripFrom_lineComment (h : '\n' ∉ body) (rest : List Char) :
    stripFrom .lineComment (body ++ rest) = stripFrom .lineComment rest := by
  induction body with
  | nil => rfl
  | cons c body ih =>
      have hc := List.ne_of_not_mem_cons h
      have hbody := List.not_mem_of_not_mem_cons h
      simp [stripFrom, staysIn, Stretch.next, Ne.symm hc, ih hbody]

theorem significant?_lineComment (h : '\n' ∉ body) (rest : List Char) :
    significant? .lineComment (body ++ rest) = significant? .lineComment rest := by
  induction body with
  | nil => rfl
  | cons c body ih =>
      have hc := List.ne_of_not_mem_cons h
      have hbody := List.not_mem_of_not_mem_cons h
      simp [significant?, Stretch.next, Ne.symm hc, ih hbody]

/-- Inside a block comment no star is followed by a slash. -/
theorem next_blockComment (h : ¬ ['*', '/'] <:+: c :: body) (rest : List Char) :
    Stretch.blockComment.next c (body ++ '*' :: rest).head? = .blockComment := by
  have hopen : ¬ (c = '*' ∧ (body ++ '*' :: rest).head? = some '/') := by
    rintro ⟨rfl, hhead⟩
    cases body with
    | nil => cases hhead
    | cons d body =>
        cases hhead
        exact h ⟨[], body, rfl⟩
  rw [Stretch.next, if_neg hopen]

theorem stripFrom_blockComment (h : ¬ ['*', '/'] <:+: body) (rest : List Char) :
    stripFrom .blockComment (body ++ '*' :: '/' :: rest) = stripFrom .plain rest := by
  induction body with
  | nil => rfl
  | cons c body ih =>
      have hbody : ¬ ['*', '/'] <:+: body := fun hinside =>
        h (hinside.trans (List.suffix_cons c body).isInfix)
      rw [List.cons_append, stripFrom, next_blockComment h, ih hbody]
      rfl

theorem significant?_blockComment (h : ¬ ['*', '/'] <:+: body) (rest : List Char) :
    significant? .blockComment (body ++ '*' :: '/' :: rest) = significant? .plain rest := by
  induction body with
  | nil => rfl
  | cons c body ih =>
      have hbody : ¬ ['*', '/'] <:+: body := fun hinside =>
        h (hinside.trans (List.suffix_cons c body).isInfix)
      rw [List.cons_append, significant?, next_blockComment h, ih hbody]
      simp

theorem isBlank_of_isSpace (h : isSpace c = true) :
    Text.isBlank c = true ∧ isInert c = true := by
  simp only [isSpace, Bool.or_eq_true, beq_iff_eq] at h
  rcases h with ((rfl | rfl) | rfl) | rfl <;> decide

theorem Gap.stripFrom_append (gap : Gap) (rest : List Char) :
    stripFrom .plain (gap.chars ++ rest) = gap.spaces ++ stripFrom .plain rest := by
  cases gap with
  | space c h => exact stripFrom_inert (isBlank_of_isSpace h).2 rest
  | lineComment body h =>
      have htail : stripFrom .lineComment (body ++ '\n' :: rest) = '\n' :: stripFrom .plain rest :=
        stripFrom_lineComment h ('\n' :: rest)
      simpa [chars, spaces, stripFrom, staysIn, Stretch.next, Stretch.opensComment] using htail
  | blockComment body h =>
      have htail := stripFrom_blockComment h rest
      simpa [chars, spaces, stripFrom, staysIn, Stretch.next, Stretch.opensComment] using htail

theorem Gap.significant?_append (gap : Gap) (rest : List Char) :
    significant? .plain (gap.chars ++ rest) = significant? .plain rest := by
  cases gap with
  | space c h =>
      obtain ⟨hblank, hinert⟩ := isBlank_of_isSpace h
      exact significant?_blank hblank hinert rest
  | lineComment body h =>
      have htail : significant? .lineComment (body ++ '\n' :: rest) = significant? .plain rest :=
        significant?_lineComment h ('\n' :: rest)
      simpa [chars, significant?, Stretch.next, Stretch.opensComment] using htail
  | blockComment body h =>
      have htail := significant?_blockComment h rest
      simpa [chars, significant?, Stretch.next, Stretch.opensComment] using htail

/-- Stripping leaves the blanks of a layout. -/
theorem Layout.stripFrom_append (layout : Layout) (rest : List Char) :
    stripFrom .plain (layout.chars ++ rest) = layout.spaces ++ stripFrom .plain rest := by
  induction layout with
  | nil => rfl
  | cons gap layout ih =>
      have hchars : chars (gap :: layout) ++ rest = gap.chars ++ (chars layout ++ rest) := by
        simp [chars]
      rw [hchars, gap.stripFrom_append, ih]
      simp [spaces]

/-- A layout is passed over in the search for the end of a container. -/
theorem Layout.closesNext_append (layout : Layout) (rest : List Char) :
    closesNext (layout.chars ++ rest) = closesNext rest := by
  induction layout with
  | nil => rfl
  | cons gap layout ih =>
      have hchars : chars (gap :: layout) ++ rest = gap.chars ++ (chars layout ++ rest) := by
        simp [chars]
      rw [← ih, hchars, closesNext, gap.significant?_append, closesNext]

/-! ## Tokens -/

theorem stripFrom_quote (rest : List Char) :
    stripFrom .plain ('"' :: rest) = '"' :: stripFrom .string rest := by
  simp [stripFrom, staysIn, Stretch.next, Stretch.opensComment]

theorem stripFrom_string (hbackslash : c ≠ '\\') (hquote : c ≠ '"') (rest : List Char) :
    stripFrom .string (c :: rest) = c :: stripFrom .string rest := by
  simp [stripFrom, staysIn, Stretch.next, hbackslash, hquote]

theorem stripFrom_escape (c : Char) (rest : List Char) :
    stripFrom .string ('\\' :: c :: rest) = '\\' :: c :: stripFrom .string rest := by
  simp [stripFrom, staysIn, Stretch.next]

theorem ne_of_isSome_hexDigit? (h : (hexDigit? c).isSome = true) : c ≠ '\\' ∧ c ≠ '"' := by
  constructor <;>
  · rintro rfl
    exact absurd h (by decide)

theorem isSome_of_isSome_hexUnit? {a b c d : Char} (h : (hexUnit? a b c d).isSome = true) :
    (hexDigit? a).isSome = true ∧ (hexDigit? b).isSome = true ∧ (hexDigit? c).isSome = true ∧
      (hexDigit? d).isSome = true := by
  obtain ⟨unit, hunit⟩ := Option.isSome_iff_exists.mp h
  simp only [hexUnit?, Option.bind_eq_bind, Option.bind_eq_some_iff] at hunit
  obtain ⟨_, ha, _, hb, _, hc, _, hd, -⟩ := hunit
  simp [ha, hb, hc, hd]

/-- What is inside a string stays, and its closing quote is plain again. -/
theorem Token.IsBody.stripFrom_append (h : IsBody body) (rest : List Char) :
    stripFrom .string (body ++ '"' :: rest) = body ++ '"' :: stripFrom .plain rest := by
  induction h with
  | nil => simp [stripFrom, staysIn, Stretch.next]
  | plain hquote hbackslash _ _ ih =>
      rw [List.cons_append, stripFrom_string hbackslash hquote, ih, List.cons_append]
  | escape _ _ ih => simp only [List.cons_append, stripFrom_escape, ih]
  | unit hdigits _ ih =>
      obtain ⟨ha, hb, hc, hd⟩ := isSome_of_isSome_hexUnit? hdigits
      have hkeep {c : Char} (h : (hexDigit? c).isSome = true) (rest : List Char) :
          stripFrom .string (c :: rest) = c :: stripFrom .string rest :=
        stripFrom_string (ne_of_isSome_hexDigit? h).1 (ne_of_isSome_hexDigit? h).2 rest
      simp only [List.cons_append, stripFrom_escape, hkeep ha, hkeep hb, hkeep hc, hkeep hd, ih]

theorem isInert_of_isDigit (h : c.isDigit = true) : isInert c = true := by
  simp only [isInert, Bool.and_eq_true, bne_iff_ne]
  refine ⟨⟨?_, ?_⟩, ?_⟩ <;>
  · rintro rfl
    cases h

theorem Token.IsNumeral.isInert (h : IsNumeral lexeme) : ∀ c ∈ lexeme, isInert c = true := by
  obtain ⟨whole, fraction, exponent, ⟨hwhole, -⟩, hfraction, hexponent, rfl⟩ := h
  have hdigits {digits : List Char} (h : IsDigits digits) : ∀ c ∈ digits, isInert c = true :=
    fun c hc => isInert_of_isDigit (h.2 c hc)
  simp only [List.forall_mem_append]
  refine ⟨hdigits hwhole, ?_, ?_⟩
  · rcases hfraction with rfl | ⟨digits, hok, rfl⟩
    · exact List.forall_mem_nil _
    · exact List.forall_mem_cons.mpr ⟨by decide, hdigits hok⟩
  · rcases hexponent with rfl | ⟨mark, sign, digits, hmark, hsign, hok, rfl⟩
    · exact List.forall_mem_nil _
    · refine List.forall_mem_cons.mpr ⟨?_, List.forall_mem_append.mpr ⟨?_, hdigits hok⟩⟩
      · rcases hmark with rfl | rfl <;> rfl
      · rcases hsign with rfl | rfl | rfl <;> simp [Json.isInert]

theorem Token.IsScalar.isInert (h : IsScalar lexeme) : ∀ c ∈ lexeme, isInert c = true := by
  cases h with
  | nullWord => simp [Json.isInert]
  | trueWord => simp [Json.isInert]
  | falseWord => simp [Json.isInert]
  | numeral h => exact h.isInert
  | negative h => exact List.forall_mem_cons.mpr ⟨rfl, h.isInert⟩

/-- Stripping leaves every token, except a comma that the end of a container follows. -/
theorem Token.IsLexeme.stripFrom_append (h : IsLexeme token lexeme)
    (hcomma : token = .comma → closesNext rest = false) :
    stripFrom .plain (lexeme ++ rest) = lexeme ++ stripFrom .plain rest := by
  cases h with
  | comma =>
      rw [List.cons_append, stripFrom_comma, if_neg (by simp [hcomma rfl])]
      rfl
  | quoted value h => simp [stripFrom_quote, h.stripFrom_append]
  | scalar value h => exact stripFrom_append_of_inert h.isInert rest
  | _ => exact stripFrom_inert (by decide) rest

/-- Whether a token ends a container. -/
def Token.isCloser : Token → Bool
  | .closeBrace | .closeBracket => true
  | _ => false

theorem closesNext_solid (hblank : Text.isBlank c = false) (hslash : c ≠ '/') (rest : List Char) :
    closesNext (c :: rest) = (c == '\x7d' || c == ']') := by
  rw [closesNext, significant?_solid hblank hslash]

theorem closesNext_digit (h : c.isDigit = true) (rest : List Char) :
    closesNext (c :: rest) = false := by
  have hblank : Text.isBlank c = false := by
    by_contra hblank
    have hnot : c.isDigit = false :=
      Text.forall_isBlank_not (by decide) c (Bool.not_eq_false _ ▸ hblank)
    exact absurd h (by simp [hnot])
  rw [closesNext_solid hblank (ne_slash_of_isInert (isInert_of_isDigit h))]
  simp only [Bool.or_eq_false_iff, beq_eq_false_iff_ne]
  constructor <;>
  · rintro rfl
    cases h

/-- A comma before a token stands behind the last item if the token ends a container. -/
theorem Token.IsLexeme.closesNext_append (h : IsLexeme token lexeme) (rest : List Char) :
    closesNext (lexeme ++ rest) = token.isCloser := by
  cases h with
  | scalar value h =>
      cases h with
      | numeral h =>
          obtain ⟨c, tail, rfl, hc⟩ := h.exists_cons
          exact closesNext_digit hc _
      | _ => exact closesNext_solid (by decide) (by decide) _
  | _ => exact closesNext_solid (by decide) (by decide) _

end LayerLint.Json
