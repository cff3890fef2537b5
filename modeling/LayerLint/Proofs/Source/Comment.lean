import LayerLint.Proofs.Source.Joining
import LayerLint.Proofs.Source.Lexeme
import LayerLint.Proofs.Source.Literal
import LayerLint.Proofs.Text.Blank
import LayerLint.Proofs.Text.Widening

/-! # A comment between two parts of a source text

A block comment can be put into a source text where the code goes on behind a blank, or at its
beginning. The masked form of the text is then widened by blanks, and no literal of the first part
reaches the comment.
-/

namespace LayerLint.Source

open Text (Widening)

variable {following : Option Char} {region : Region}

theorem isBlank_of_mem_blank {c d : Char} (h : d ∈ blank c) : Text.isBlank d = true := by
  unfold blank at h
  split at h
  next hbreak =>
    obtain rfl := List.mem_singleton.mp h
    rcases hbreak with rfl | rfl <;> decide
  next =>
    rw [List.eq_of_mem_replicate h]
    decide

theorem byteSize_flatMap_blank (text : List Char) :
    Text.byteSize (text.flatMap blank) = Text.byteSize text := by
  induction text with
  | nil => rfl
  | cons c rest ih =>
      rw [List.flatMap_cons, Text.byteSize_append, byteSize_blank, ih, Text.byteSize_cons]

/-- A text that ends in the code, with a blank as its last character, is masked alike whatever
follows. -/
theorem after_eq_code {text : List Char} (hcode : Region.after none .code text = .code)
    (hlast : ∀ c, (maskChars text).getLast? = some c → Text.isBlank c = true)
    (following : Option Char) :
    Region.after following .code text = .code ∧
      maskUntil following .code text = maskChars text := by
  refine after_eq_code_of_not_slash hcode fun hslash => ?_
  -- the slash would be seen, and it is no blank
  obtain ⟨seen, halone, -⟩ := maskChars_of_endsInSlash hslash
  have hblank : Text.isBlank '/' = true := hlast '/' (by rw [halone, List.getLast?_concat])
  exact absurd hblank (by decide)

theorem throughBlockEnd_of_not_infix {body : List Char} (hbody : ¬['*', '/'] <:+: body)
    (rest : List Char) :
    Lexeme.throughBlockEnd (body ++ '*' :: '/' :: rest) = (body ++ ['*', '/'], rest) := by
  induction body with
  | nil => rfl
  | cons c body ih =>
      have hopen : ∀ more, c = '*' → body ++ '*' :: '/' :: rest = '/' :: more → False := by
        rintro more rfl heq
        cases body with
        | nil => cases heq
        | cons d body =>
            obtain ⟨rfl, -⟩ := List.cons.inj heq
            exact hbody ⟨[], body, rfl⟩
      have htail : ¬['*', '/'] <:+: body := fun h => hbody (h.trans (List.suffix_cons c body).isInfix)
      rw [List.cons_append, Lexeme.throughBlockEnd, ih htail]
      · rfl
      · exact hopen

/-! ## The comment -/

/-- A source text and a block comment that is put into it behind a blank of the code, or at its
beginning. -/
structure Commenting where
  before : List Char
  body : List Char
  after : List Char
  before_code : Region.after none .code before = .code
  before_blank : ∀ c, (maskChars before).getLast? = some c → Text.isBlank c = true
  body_open : ¬['*', '/'] <:+: body

namespace Commenting

variable (text : Commenting)

/-- The comment. -/
def comment : List Char := '/' :: '*' :: (text.body ++ ['*', '/'])

/-- The source text without the comment. -/
def plain : List Char := text.before ++ text.after

/-- The source text with the comment. -/
def commented : List Char := text.before ++ (text.comment ++ text.after)

/-- The comment widens the masked text by blanks. -/
def widening : Widening where
  before := maskChars text.before
  gap := text.comment.flatMap blank
  after := maskChars text.after
  gap_blank := by
    intro c hc
    obtain ⟨d, -, hmem⟩ := List.mem_flatMap.mp hc
    exact isBlank_of_mem_blank hmem
  before_blank := text.before_blank

theorem maskChars_before_append (rest : List Char) :
    maskChars (text.before ++ rest) = maskChars text.before ++ maskChars rest := by
  obtain ⟨hcode, hmask⟩ := after_eq_code text.before_code text.before_blank rest.head?
  rw [maskChars, maskFrom_append, hcode, hmask]
  rfl

theorem maskChars_plain : maskChars text.plain = text.widening.narrow :=
  text.maskChars_before_append text.after

theorem maskChars_commented : maskChars text.commented = text.widening.wide := by
  have hfirst : Lexeme.first? (text.comment ++ text.after) =
      some (.comment text.comment, text.after) := by
    have hend := throughBlockEnd_of_not_infix text.body_open text.after
    rw [comment, List.cons_append, List.cons_append, List.append_assoc, Lexeme.first?]
    simp only [List.cons_append, List.nil_append, hend]
  have hmask : maskChars (text.comment ++ text.after) =
      text.comment.flatMap blank ++ maskChars text.after := by
    rw [maskChars, Lexeme.maskFrom_of_first? hfirst, Lexeme.marks, Lexeme.flatMap_written_hidden]
    rfl
  rw [commented, text.maskChars_before_append, hmask]
  rfl

theorem byteSize_before : Text.byteSize text.widening.before = Text.byteSize text.before :=
  byteSize_maskFrom .code text.before

theorem byteSize_gap : Text.byteSize text.widening.gap = Text.byteSize text.comment :=
  byteSize_flatMap_blank text.comment

/-- Behind an ordinary character and no delimiter, a quote in front of the comment is closed there,
or its line ends. -/
theorem exists_closing_mem {front lead tail : List Char} {first quote : Char}
    (hmasked : text.widening.before = front ++ first :: (lead ++ quote :: tail))
    (hfirst : first ≠ ' ' ∧ first ≠ '\n' ∧ first ≠ '\r' ∧ isDelimiter first = false)
    (hlead : ∀ c ∈ lead, isDelimiter c = false) (hquote : quote = '\'' ∨ quote = '"') :
    ∃ c ∈ tail, c = quote ∨ c = '\n' := by
  obtain ⟨chars, rest, hbefore, -, hopens, rfl⟩ :=
    exists_opening_quote hmasked hfirst hlead hquote
  by_contra hnone
  -- otherwise the text before the comment ends inside the literal
  have hinside : (Region.after none (.quoted quote) rest).isInside quote = true := by
    apply Region.isInside_after
    · simp [Region.isInside]
    · rw [maskUntil_none]
      intro c hc
      exact ⟨fun heq => hnone ⟨c, hc, .inl heq⟩, fun heq => hnone ⟨c, hc, .inr heq⟩⟩
  have hcode := text.before_code
  rw [hbefore, Region.after_append, List.head?_cons, Option.some_or] at hcode
  rw [regionAt, List.head?_cons] at hopens
  rw [hopens, Region.after, Region.code_next_quote hquote] at hcode
  rw [hcode] at hinside
  cases hinside

end Commenting

end LayerLint.Source
