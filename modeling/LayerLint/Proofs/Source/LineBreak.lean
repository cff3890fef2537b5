import LayerLint.Proofs.Source.Respelled
import LayerLint.Proofs.Source.WidenedReference

/-! # A carriage return in front of a line feed

Where a carriage return is put in front of a line feed of a source text, the masked text gets it
too. One can as well say that another line feed is put in behind the one that is there, which widens
the text by a blank, and that the first of the two is then spelled as a carriage return. The literals
of the source stand on one side of the line break, as none that is found goes through it.
-/

namespace LayerLint.Source

open Pattern
open Text (Cursor Respells Widening)

/-! ## Masking a line break -/

namespace Region

variable {region : Region} {following : Option Char}

/-- No region looks at a line break that follows a character. -/
theorem next_return (region : Region) (c : Char) :
    region.next c (some '\r') = region.next c (some '\n') ∧
      region.shows c (some '\r') = region.shows c (some '\n') := by
  cases region <;> simp [next]

/-- Whether a backslash of a string literal stands in front of a character of the region. -/
def isEscaped : Region → Bool
  | quotedEscape _ => true
  | _ => false

/-- Behind a carriage return a line feed leads to where it leads alone, unless the carriage return
is escaped. -/
theorem next_return_lineFeed (hregion : region.hasQuote = true)
    (hescape : region.isEscaped = false) :
    (region.next '\r' (some '\n')).next '\n' following = region.next '\n' following := by
  cases region with
  | quoted quote =>
      have hquote : '\r' ≠ quote := by
        rintro rfl
        cases hregion
      simp [next, hquote]
  | quotedEscape quote => cases hescape
  | code | lineComment | blockOpen | blockComment | blockClose | template | templateEscape =>
      simp [next, backTick]

theorem after_return (region : Region) (text : List Char) :
    after (some '\r') region text = after (some '\n') region text ∧
      maskUntil (some '\r') region text = maskUntil (some '\n') region text := by
  induction text generalizing region with
  | nil => exact ⟨rfl, rfl⟩
  | cons c rest ih =>
      cases rest with
      | nil => simp [after, maskUntil, next_return region c]
      | cons d rest =>
          obtain ⟨hafter, hmask⟩ := ih (region.next c (some d))
          exact ⟨hafter, congrArg ((if region.shows c (some d) then [c] else blank c) ++ ·) hmask⟩

end Region

theorem shown_or_blank {c : Char} (hc : Text.isBreak c = true) (shown : Bool) :
    (if shown then [c] else blank c) = [c] := by
  rw [Text.isBreak, Bool.or_eq_true, beq_iff_eq, beq_iff_eq] at hc
  rw [blank, if_pos hc, ite_self]

/-! ## One line break -/

/-- A line feed of a source text that is not escaped in a string literal. -/
structure LineBreak where
  before : List Char
  after : List Char
  unescaped : (regionAt before ('\n' :: after)).isEscaped = false

namespace LineBreak

variable (text : LineBreak)

/-- The source text with the line feed alone. -/
def plain : List Char := text.before ++ '\n' :: text.after

/-- The source text with a carriage return in front of the line feed. -/
def returned : List Char := text.before ++ '\r' :: '\n' :: text.after

/-- What is seen in front of the line break. -/
def front : List Char := maskUntil (some '\n') .code text.before

/-- What is seen behind the line break. -/
def behind : List Char :=
  maskFrom ((regionAt text.before ('\n' :: text.after)).next '\n' text.after.head?) text.after

/-- Another line feed behind the one that is there. -/
def widening : Widening where
  before := text.front ++ ['\n']
  gap := ['\n']
  after := text.behind
  gap_blank := List.forall_mem_singleton.mpr (by decide)
  before_blank := by
    intro c hc
    rw [List.getLast?_concat, Option.some.injEq] at hc
    rw [← hc]
    decide

theorem maskChars_plain : maskChars text.plain = text.widening.narrow := by
  change _ = (text.front ++ ['\n']) ++ text.behind
  rw [maskChars, plain, maskFrom_append, maskFrom, shown_or_blank rfl, List.append_assoc]
  rfl

theorem maskChars_returned :
    maskChars text.returned = text.front ++ '\r' :: '\n' :: text.behind := by
  obtain ⟨hregion, hfront⟩ := Region.after_return .code text.before
  have hbehind : ((Region.after (some '\n') .code text.before).next '\r' (some '\n')).next '\n'
        text.after.head? =
      (Region.after (some '\n') .code text.before).next '\n' text.after.head? :=
    Region.next_return_lineFeed (Region.hasQuote_after rfl) text.unescaped
  rw [maskChars, returned, maskFrom_append, List.head?_cons, hregion, hfront, maskFrom, maskFrom,
    shown_or_blank rfl, shown_or_blank rfl, List.head?_cons, hbehind]
  rfl

theorem respells : Respells text.widening.wide (maskChars text.returned) := by
  rw [maskChars_returned, Widening.wide, widening, List.append_assoc]
  exact (Respells.lineBreak (.refl text.behind)).append_left text.front

/-! ## Literals -/

theorem keepsLiterals : KeepsLiterals text.widening := by
  apply KeepsLiterals.of_not_crossing
  rintro keyword - - place stop captures more - - ⟨first, quote, inside, hquote, hsplit, -, hopen⟩
  -- a literal that goes on through the line feed is none
  rcases List.eq_nil_or_concat' inside with rfl | ⟨lead, last, rfl⟩
  · obtain ⟨-, hlast⟩ := List.append_inj' hsplit rfl
    obtain rfl := (List.cons.inj hlast).1
    rcases hquote with hquote | hquote <;> cases hquote
  · have hsplit : text.front ++ ['\n'] = (first ++ quote :: lead) ++ [last] := by
      rw [List.append_assoc]
      exact hsplit
    obtain ⟨-, hlast⟩ := List.append_inj' hsplit rfl
    obtain rfl := (List.cons.inj hlast).1
    exact (hopen '\n' (by simp)).2 rfl

theorem byteSize_before :
    Text.byteSize text.widening.before = Text.byteSize text.before + 1 := by
  rw [widening, Text.byteSize_append, front, byteSize_maskUntil]
  rfl

theorem shift_of_le {offset : Nat} (h : offset ≤ Text.byteSize text.before) :
    text.widening.shift offset = offset := by
  rw [Widening.shift, text.byteSize_before, if_pos (Nat.lt_succ_of_le h)]

theorem shift_of_lt {offset : Nat} (h : Text.byteSize text.before < offset) :
    text.widening.shift offset = offset + 1 := by
  rw [Widening.shift, text.byteSize_before, if_neg (Nat.not_lt.mpr h)]
  rfl

variable {text}

/-- A literal on one line stands behind the line break, or it ends in front of it. -/
theorem exists_literal_split (literal : Literal text.plain) (hline : '\n' ∉ literal.inside) :
    (∃ ahead, text.before = literal.before ++ literal.quote :: (literal.inside ++ ahead)) ∨
      ∃ middle, literal.before = text.before ++ '\n' :: middle := by
  have hquote : '\n' ≠ literal.quote := by
    rcases literal.isQuote with h | h <;> rw [h] <;> decide
  rcases List.append_eq_append_iff.mp literal.source_eq with
    ⟨middle, hbefore, hafter⟩ | ⟨middle, hbefore, hafter⟩
  · cases middle with
    | nil => exact (hquote (List.cons.inj hafter).1).elim
    | cons c middle =>
        obtain ⟨rfl, -⟩ := List.cons.inj hafter
        exact .inr ⟨middle, hbefore⟩
  · cases middle with
    | nil => exact (hquote (List.cons.inj hafter).1.symm).elim
    | cons c middle =>
        obtain ⟨rfl, hinside⟩ := List.cons.inj hafter
        rcases List.append_eq_append_iff.mp hinside with
          ⟨ahead, hmiddle, -⟩ | ⟨ahead, hmiddle, hahead⟩
        · exact .inl ⟨ahead, by rw [hbefore, hmiddle]⟩
        · -- the line feed would be the literal's closing quote, or stand inside of it
          cases ahead with
          | nil => exact (hquote (List.cons.inj hahead).1).elim
          | cons c ahead =>
              obtain ⟨rfl, -⟩ := List.cons.inj hahead
              exact (hline (by rw [hmiddle]; simp)).elim

/-- A literal on one line is found with the carriage return too. -/
theorem slice?_literal (literal : Literal text.plain) (hline : '\n' ∉ literal.inside) :
    Text.slice? text.returned (text.widening.shift literal.offset)
        (text.widening.shift (literal.offset + Text.byteSize literal.inside)) =
      some literal.inside := by
  have hoffset : literal.offset = Text.byteSize (literal.before ++ [literal.quote]) := rfl
  have hgap : Text.byteSize text.widening.gap = Text.byteSize ['\r'] := rfl
  apply literal.slice?_inserted rfl hgap
  rcases exists_literal_split literal hline with ⟨ahead, hbefore⟩ | ⟨middle, hbefore⟩
  · refine .inl ⟨ahead, hbefore, ?_⟩
    rw [text.byteSize_before, hoffset, hbefore]
    simp only [Text.byteSize_append, Text.byteSize_cons, Text.byteSize_nil]
    omega
  · refine .inr ⟨'\n' :: middle, hbefore, ?_⟩
    have hfeed : Char.utf8Size '\n' = 1 := rfl
    rw [text.byteSize_before, hoffset, hbefore]
    simp only [Text.byteSize_append, Text.byteSize_cons, hfeed]
    omega

variable (text)

theorem spread : Spread text.widening text.plain text.returned where
  maskChars_plain := text.maskChars_plain
  keepsLiterals := text.keepsLiterals
  slice?_literal := slice?_literal

end LineBreak

end LayerLint.Source
