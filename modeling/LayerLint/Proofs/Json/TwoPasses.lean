import LayerLint.Proofs.Json.Stripping
import LayerLint.Proofs.Source.Lexeme

/-! # Stripping in two passes

Stripping reads a text once, and looks ahead over blanks and comments at each comma. It leaves what
two passes leave that do not look so far: the first takes comments away, each as a whole, and the
second takes away the commas that only blanks part from the end of a container. The text may be
anything; a string or a comment that nothing closes lasts until its end.
-/

namespace LayerLint.Json

open Source.Lexeme (throughBlockEnd throughBlockEnd_append eq_nil_of_no_escape not_pair_of_forall)

/-! ## The passes -/

/-- A string behind its opening quote, through its closing quote or to the end, and what follows. A
backslash takes the next character with it, whatever that is. -/
def throughStringEnd : List Char → List Char × List Char
  | '\\' :: c :: rest => ('\\' :: c :: (throughStringEnd rest).1, (throughStringEnd rest).2)
  | c :: rest =>
      if c = '"' then ([c], rest) else (c :: (throughStringEnd rest).1, (throughStringEnd rest).2)
  | [] => ([], [])

theorem throughStringEnd_append (text : List Char) :
    (throughStringEnd text).1 ++ (throughStringEnd text).2 = text := by
  fun_induction throughStringEnd text with
  | case1 c rest ih => rw [List.cons_append, List.cons_append, ih]
  | case2 rest _ => rfl
  | case3 c rest _ _ ih => rw [List.cons_append, ih]
  | case4 => rfl

theorem length_throughStringEnd_le (text : List Char) :
    (throughStringEnd text).2.length ≤ text.length :=
  List.IsSuffix.length_le ⟨_, throughStringEnd_append text⟩

theorem length_throughBlockEnd_le (text : List Char) :
    (throughBlockEnd text).2.length ≤ text.length :=
  List.IsSuffix.length_le ⟨_, throughBlockEnd_append text⟩

/-- The first pass: strings are copied as they are, and comments are left out. The line feed behind
a line comment is not part of it. -/
def dropComments : List Char → List Char
  | [] => []
  | '/' :: '/' :: rest => dropComments (rest.dropWhile (· != '\n'))
  | '/' :: '*' :: rest => dropComments (throughBlockEnd rest).2
  | c :: rest =>
      if c = '"' then c :: ((throughStringEnd rest).1 ++ dropComments (throughStringEnd rest).2)
      else c :: dropComments rest
termination_by text => text.length
decreasing_by
  · have := Token.length_dropWhile_le (· != '\n') rest
    simp only [List.length_cons]
    omega
  · have := length_throughBlockEnd_le rest
    simp only [List.length_cons]
    omega
  · have := length_throughStringEnd_le rest
    simp only [List.length_cons]
    omega
  · simp

/-- Whether the first character of a text that is no blank ends a container. -/
def closesFirst (text : List Char) : Bool :=
  (text.find? fun c => !Text.isBlank c).any fun c => c == '\x7d' || c == ']'

/-- The second pass: strings are copied as they are, and commas that only blanks part from the end
of a container are left out. What is left out before or behind a comma does not matter for it. -/
def dropCommas : List Char → List Char
  | [] => []
  | c :: rest =>
      if c = '"' then c :: ((throughStringEnd rest).1 ++ dropCommas (throughStringEnd rest).2)
      else if c = ',' ∧ closesFirst rest then dropCommas rest
      else c :: dropCommas rest
termination_by text => text.length
decreasing_by
  · have := length_throughStringEnd_le rest
    simp only [List.length_cons]
    omega
  · simp
  · simp

/-! ## Strings -/

/-- A string that is read is read again if something else follows it, and nothing follows one that
lasts to the end. -/
theorem throughStringEnd_again {text more : List Char}
    (hmore : (throughStringEnd text).2 = [] → more = []) :
    throughStringEnd ((throughStringEnd text).1 ++ more) = ((throughStringEnd text).1, more) := by
  fun_induction throughStringEnd text with
  | case1 c rest ih => simp only [List.cons_append, throughStringEnd, ih hmore]
  | case2 rest hescape => simp [throughStringEnd]
  | case3 c rest hescape hopen ih =>
      by_cases hc : c = '\\'
      · obtain rfl := eq_nil_of_no_escape hescape hc
        simp [throughStringEnd, hopen, hmore rfl]
      · simp [throughStringEnd, hc, hopen, ih hmore]
  | case4 => simp [throughStringEnd, hmore rfl]

theorem stripFrom_string_eq (text : List Char) :
    stripFrom .string text =
      (throughStringEnd text).1 ++ stripFrom .plain (throughStringEnd text).2 := by
  fun_induction throughStringEnd text with
  | case1 c rest ih => rw [stripFrom_escape, ih, List.cons_append, List.cons_append]
  | case2 rest hescape => simp [stripFrom, staysIn, Stretch.next]
  | case3 c rest hescape hopen ih =>
      by_cases hc : c = '\\'
      · obtain rfl := eq_nil_of_no_escape hescape hc
        simp [throughStringEnd, stripFrom, staysIn]
      · rw [stripFrom_string hc hopen, ih, List.cons_append]
  | case4 => rfl

/-! ## Comments -/

theorem stripFrom_lineComment_eq (text : List Char) :
    stripFrom .lineComment text = stripFrom .plain (text.dropWhile (· != '\n')) := by
  induction text with
  | nil => rfl
  | cons c rest ih =>
      by_cases hc : c = '\n'
      · simp [hc, stripFrom, staysIn, Stretch.next, Stretch.opensComment]
      · simp [hc, stripFrom, staysIn, Stretch.next, ih]

theorem significant?_lineComment_eq (text : List Char) :
    significant? .lineComment text = significant? .plain (text.dropWhile (· != '\n')) := by
  induction text with
  | nil => rfl
  | cons c rest ih =>
      by_cases hc : c = '\n'
      · have hblank : Text.isBlank '\n' = true := (isBlank_of_isSpace rfl).1
        simp [hc, significant?, Stretch.next, Stretch.opensComment, hblank]
      · simp [hc, significant?, Stretch.next, ih]

theorem stripFrom_blockComment_eq (text : List Char) :
    stripFrom .blockComment text = stripFrom .plain (throughBlockEnd text).2 := by
  fun_induction throughBlockEnd text with
  | case1 rest => simp [stripFrom, staysIn, Stretch.next]
  | case2 c rest hend ih => simp [stripFrom, staysIn, Stretch.next, not_pair_of_forall hend, ih]
  | case3 => rfl

theorem significant?_blockComment_eq (text : List Char) :
    significant? .blockComment text = significant? .plain (throughBlockEnd text).2 := by
  fun_induction throughBlockEnd text with
  | case1 rest => simp [significant?, Stretch.next]
  | case2 c rest hend ih => simp [significant?, Stretch.next, not_pair_of_forall hend, ih]
  | case3 => rfl

/-! ## Both passes -/

theorem opensComment_eq_false {c : Char} {rest : List Char}
    (hline : ∀ tail, c = '/' → rest = '/' :: tail → False)
    (hblock : ∀ tail, c = '/' → rest = '*' :: tail → False) :
    Stretch.opensComment c rest.head? = false := by
  have hline := not_pair_of_forall hline
  have hblock := not_pair_of_forall hblock
  by_cases hc : c = '/'
  · simp_all [Stretch.opensComment]
  · exact opensComment_of_ne hc _

/-- The search over blanks and comments finds what is found over blanks in what the first pass
leaves. -/
theorem significant?_eq_find? (text : List Char) :
    significant? .plain text = (dropComments text).find? fun c => !Text.isBlank c := by
  fun_induction dropComments text with
  | case1 => rfl
  | case2 rest ih =>
      rw [← ih, ← significant?_lineComment_eq]
      simp [significant?, Stretch.next, Stretch.opensComment]
  | case3 rest ih =>
      rw [← ih, ← significant?_blockComment_eq]
      simp [significant?, Stretch.next, Stretch.opensComment]
  | case4 rest _ _ ih =>
      rw [significant?_solid (by decide) (by decide), List.find?_cons_of_pos (by decide)]
  | case5 c rest hline hblock hquote ih =>
      have hplain := opensComment_eq_false hline hblock
      cases hblank : Text.isBlank c <;>
        simp [significant?, Stretch.next, hplain, hblank, hquote, ih]

theorem closesNext_eq_closesFirst (text : List Char) :
    closesNext text = closesFirst (dropComments text) := by
  rw [closesNext, closesFirst, significant?_eq_find?]
  cases (dropComments text).find? fun c => !Text.isBlank c <;> rfl

theorem stripFrom_plain_eq (text : List Char) :
    stripFrom .plain text = dropCommas (dropComments text) := by
  fun_induction dropComments text with
  | case1 => rw [stripFrom, dropCommas]
  | case2 rest ih =>
      rw [← ih, ← stripFrom_lineComment_eq]
      simp [stripFrom, staysIn, Stretch.next, Stretch.opensComment]
  | case3 rest ih =>
      rw [← ih, ← stripFrom_blockComment_eq]
      simp [stripFrom, staysIn, Stretch.next, Stretch.opensComment]
  | case4 rest _ _ ih =>
      -- the second pass meets the string as the first one left it
      have hmore : (throughStringEnd rest).2 = [] → dropComments (throughStringEnd rest).2 = [] :=
        fun hnil => by rw [hnil, dropComments]
      rw [stripFrom_quote, stripFrom_string_eq, dropCommas, if_pos rfl,
        throughStringEnd_again hmore, ih]
  | case5 c rest hline hblock hquote ih =>
      have hplain := opensComment_eq_false hline hblock
      rw [dropCommas, if_neg hquote, ← closesNext_eq_closesFirst, ← ih]
      by_cases hcomma : c = ',' ∧ closesNext rest = true
      · rw [if_pos hcomma, hcomma.1, stripFrom_comma, if_pos hcomma.2]
      · rw [if_neg hcomma]
        simp [stripFrom, staysIn, Stretch.next, hplain, hquote, hcomma]

/-- Stripping a text in one pass leaves what two passes leave: the first takes all comments out of
it, and the second those commas outside strings behind which, in what the first one leaves, the next
character that is no blank ends a container. -/
theorem stripComments_eq_two_passes (text : String) :
    stripComments text = String.ofList (dropCommas (dropComments text.toList)) := by
  rw [stripComments, stripFrom_plain_eq]

-- comments do not hide the end from the comma in front of it, but that comma does from another one
example : stripFrom .plain "[1,, /* a */ // b\n]".toList = "[1,  \n]".toList := by
  decide +kernel

end LayerLint.Json
