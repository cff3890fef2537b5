import LayerLint.Source.Mask

/-! # The lexemes of a source text

Read from the left, a source text falls into lexemes: comments, literals and templates, each as a
whole, and single characters of the code. The masked form of a text shows its lexemes one after
another, so the regions that a text is masked by agree with where its lexemes begin and end.
-/

namespace LayerLint.Source

/-- A lexeme, with what opens and closes it. -/
inductive Lexeme where
  /-- A character of the code. -/
  | code (c : Char)
  /-- A comment, from its first slash to its end. -/
  | comment (text : List Char)
  /-- A string literal or a template; nothing closes it if a line or the text ends before. -/
  | literal (delimiter : Char) (inside : List Char) (closed : Bool)
  deriving Repr, DecidableEq

namespace Lexeme

/-- The text through its first star with a slash behind it, or all of it, and what follows. -/
def throughBlockEnd : List Char → List Char × List Char
  | '*' :: '/' :: rest => (['*', '/'], rest)
  | c :: rest => (c :: (throughBlockEnd rest).1, (throughBlockEnd rest).2)
  | [] => ([], [])

/-- The text through its first line feed, or all of it, and what follows. -/
def throughLineEnd : List Char → List Char × List Char
  | [] => ([], [])
  | c :: rest =>
      if c = '\n' then ([c], rest)
      else (c :: (throughLineEnd rest).1, (throughLineEnd rest).2)

/-- The inside of a literal, whether its delimiter closes it, and what follows. A backslash takes
the next character with it, whatever that is; a literal on one line ends with the line. -/
def throughLiteralEnd (delimiter : Char) (oneLine : Bool) : List Char → List Char × Bool × List Char
  | '\\' :: c :: rest =>
      let (inside, more) := throughLiteralEnd delimiter oneLine rest
      ('\\' :: c :: inside, more)
  | c :: rest =>
      if c = delimiter then ([], true, rest)
      else if oneLine ∧ c = '\n' then ([c], false, rest)
      else
        let (inside, more) := throughLiteralEnd delimiter oneLine rest
        (c :: inside, more)
  | [] => ([], false, [])

/-- The first lexeme of a text that begins in the code, and what follows it. -/
def first? : List Char → Option (Lexeme × List Char)
  | [] => none
  | '/' :: '*' :: rest =>
      let (text, more) := throughBlockEnd rest
      some (comment ('/' :: '*' :: text), more)
  | '/' :: '/' :: rest =>
      let (text, more) := throughLineEnd rest
      some (comment ('/' :: '/' :: text), more)
  | c :: rest =>
      if c = '\'' ∨ c = '"' then
        let (inside, closed, more) := throughLiteralEnd c true rest
        some (literal c inside closed, more)
      else if c = backTick then
        let (inside, closed, more) := throughLiteralEnd c false rest
        some (literal c inside closed, more)
      else some (code c, rest)

theorem throughBlockEnd_append (text : List Char) :
    (throughBlockEnd text).1 ++ (throughBlockEnd text).2 = text := by
  fun_induction throughBlockEnd text with
  | case1 rest => rfl
  | case2 c rest _ ih => rw [List.cons_append, ih]
  | case3 => rfl

theorem throughLineEnd_append (text : List Char) :
    (throughLineEnd text).1 ++ (throughLineEnd text).2 = text := by
  fun_induction throughLineEnd text with
  | case1 => rfl
  | case2 rest => rfl
  | case3 c rest _ ih => rw [List.cons_append, ih]

/-- The delimiter that closes a literal, if one does. -/
def closing (delimiter : Char) (closed : Bool) : List Char :=
  if closed then [delimiter] else []

theorem throughLiteralEnd_append (delimiter : Char) (oneLine : Bool) (text : List Char) :
    (throughLiteralEnd delimiter oneLine text).1 ++
      closing delimiter (throughLiteralEnd delimiter oneLine text).2.1 ++
        (throughLiteralEnd delimiter oneLine text).2.2 = text := by
  fun_induction throughLiteralEnd delimiter oneLine text with
  | case1 c rest inside more heq ih =>
      rw [heq] at ih
      simp only [List.cons_append, ih]
  | case2 rest _ => rfl
  | case3 c rest _ _ _ => rfl
  | case4 c rest _ _ _ inside more heq ih =>
      rw [heq] at ih
      simp only [List.cons_append, ih]
  | case5 => rfl

/-- The characters of a lexeme, each with whether it is seen: the code and the delimiters of
literals are. -/
def marks : Lexeme → List (Char × Bool)
  | code c => [(c, true)]
  | comment text => text.map fun c => (c, false)
  | literal delimiter inside closed =>
      (delimiter, true) :: inside.map (fun c => (c, false)) ++
        (closing delimiter closed).map fun c => (c, true)

theorem marks_append_of_first? {text rest : List Char} {lexeme : Lexeme}
    (h : first? text = some (lexeme, rest)) : lexeme.marks.map Prod.fst ++ rest = text := by
  have hfst (seen : Bool) (chars : List Char) :
      (chars.map fun c => (c, seen)).map Prod.fst = chars := by
    simp [Function.comp_def]
  unfold first? at h
  split at h
  · cases h
  · next rest' =>
      cases h
      simp only [marks, hfst, List.cons_append, throughBlockEnd_append]
  · next rest' =>
      cases h
      simp only [marks, hfst, List.cons_append, throughLineEnd_append]
  · next c rest' _ _ =>
      split at h
      · cases h
        simp only [marks, List.map_append, List.map_cons, hfst, List.cons_append,
          throughLiteralEnd_append]
      · split at h
        · cases h
          simp only [marks, List.map_append, List.map_cons, hfst, List.cons_append,
            throughLiteralEnd_append]
        · cases h
          rfl

theorem marks_ne_nil_of_first? {text rest : List Char} {lexeme : Lexeme}
    (h : first? text = some (lexeme, rest)) : lexeme.marks ≠ [] := by
  unfold first? at h
  grind [marks]

theorem length_lt_of_first? {text rest : List Char} {lexeme : Lexeme}
    (h : first? text = some (lexeme, rest)) : rest.length < text.length := by
  have hpos : 0 < lexeme.marks.length := List.length_pos_iff.mpr (marks_ne_nil_of_first? h)
  rw [← marks_append_of_first? h, List.length_append, List.length_map]
  omega

end Lexeme

/-- The lexemes of a text that begins in the code. -/
def lexemes (text : List Char) : List Lexeme :=
  match h : Lexeme.first? text with
  | none => []
  | some (lexeme, rest) =>
      have := Lexeme.length_lt_of_first? h
      lexeme :: lexemes rest
termination_by text.length

namespace Lexeme

/-- A character in the masked text: itself if it is seen or breaks the line, and otherwise as many
spaces as it has bytes. -/
def written (mark : Char × Bool) : List Char :=
  if mark.2 ∨ mark.1 = '\n' ∨ mark.1 = '\r' then [mark.1]
  else List.replicate mark.1.utf8Size ' '

theorem flatMap_written_seen (text : List Char) :
    (text.map fun c => (c, true)).flatMap written = text := by
  induction text with
  | nil => rfl
  | cons c rest ih => simp [written, ih]

theorem flatMap_written_hidden (text : List Char) :
    (text.map fun c => (c, false)).flatMap written = text.flatMap blank := by
  induction text with
  | nil => rfl
  | cons c rest ih => simp [written, blank, ih]

theorem not_pair_of_forall {c first second : Char} {rest : List Char}
    (h : ∀ tail, c = first → rest = second :: tail → False) :
    ¬(c = first ∧ rest.head? = some second) := by
  rintro ⟨hc, hnext⟩
  obtain ⟨tail, htail⟩ := List.head?_eq_some_iff.mp hnext
  exact h tail hc htail

theorem maskFrom_blockComment (text : List Char) :
    maskFrom .blockComment text = (throughBlockEnd text).1.flatMap blank ++
      maskFrom .code (throughBlockEnd text).2 := by
  fun_induction throughBlockEnd text with
  | case1 rest => simp [maskFrom, Region.next]
  | case2 c rest hend ih =>
      -- the star and the slash would have been taken together
      simp [maskFrom, Region.next, not_pair_of_forall hend, ih]
  | case3 => rfl

theorem maskFrom_lineComment (text : List Char) :
    maskFrom .lineComment text = (throughLineEnd text).1.flatMap blank ++
      maskFrom .code (throughLineEnd text).2 := by
  fun_induction throughLineEnd text with
  | case1 => rfl
  | case2 rest => simp [maskFrom, Region.next]
  | case3 c rest hstays ih => simp [maskFrom, Region.next, hstays, ih]

theorem eq_nil_of_no_escape {c : Char} {rest : List Char}
    (h : ∀ next more, c = '\\' → rest = next :: more → False) (hc : c = '\\') : rest = [] := by
  cases rest with
  | nil => rfl
  | cons next more => exact (h next more hc rfl).elim

theorem maskFrom_quoted {quote : Char} (hquote : quote ≠ '\\') (text : List Char) :
    maskFrom (.quoted quote) text = (throughLiteralEnd quote true text).1.flatMap blank ++
      closing quote (throughLiteralEnd quote true text).2.1 ++
        maskFrom .code (throughLiteralEnd quote true text).2.2 := by
  fun_induction throughLiteralEnd quote true text with
  | case1 c rest inside more heq ih =>
      rw [heq] at ih
      simp [maskFrom, Region.next, hquote.symm, ih]
  | case2 rest hescape => simp [maskFrom, Region.next, hquote, closing]
  | case3 c rest hescape hclose hline =>
      obtain ⟨_, rfl⟩ := hline
      simp [maskFrom, Region.next, hclose, closing]
  | case4 c rest hescape hclose hline inside more heq ih =>
      rw [heq] at ih
      by_cases hc : c = '\\'
      · obtain rfl := eq_nil_of_no_escape hescape hc
        cases heq
        simp [maskFrom, hclose, closing]
      · have hstays : c ≠ '\n' := by simpa using hline
        simp [maskFrom, Region.next, hc, hclose, hstays, ih]
  | case5 => rfl

theorem maskFrom_template (text : List Char) :
    maskFrom .template text = (throughLiteralEnd backTick false text).1.flatMap blank ++
      closing backTick (throughLiteralEnd backTick false text).2.1 ++
        maskFrom .code (throughLiteralEnd backTick false text).2.2 := by
  have hquote : backTick ≠ '\\' := by decide
  fun_induction throughLiteralEnd backTick false text with
  | case1 c rest inside more heq ih =>
      rw [heq] at ih
      simp [maskFrom, Region.next, hquote.symm, ih]
  | case2 rest hescape => simp [maskFrom, Region.next, hquote, closing]
  | case3 c rest hescape hclose hline => simp at hline
  | case4 c rest hescape hclose hline inside more heq ih =>
      rw [heq] at ih
      by_cases hc : c = '\\'
      · obtain rfl := eq_nil_of_no_escape hescape hc
        cases heq
        simp [maskFrom, hclose, closing]
      · simp [maskFrom, Region.next, hc, hclose, ih]
  | case5 => rfl

theorem maskFrom_code_cons {c : Char} {rest : List Char}
    (hblock : ¬(c = '/' ∧ rest.head? = some '*')) (hline : ¬(c = '/' ∧ rest.head? = some '/')) :
    maskFrom .code (c :: rest) = c :: maskFrom (if c = '\'' ∨ c = '"' then .quoted c
      else if c = backTick then .template else .code) rest := by
  have hshows : Region.code.shows c rest.head? = true := by
    by_cases hc : c = '/'
    · simp_all
    · simp [hc]
  rw [maskFrom, if_pos hshows, Region.next, if_neg hblock, if_neg hline, List.singleton_append]

theorem flatMap_written_literal (delimiter : Char) (inside : List Char) (closed : Bool) :
    (literal delimiter inside closed).marks.flatMap written =
      delimiter :: (inside.flatMap blank ++ closing delimiter closed) := by
  simp [marks, written, flatMap_written_hidden, flatMap_written_seen]

/-- Masking a text that begins in the code shows its first lexeme and goes on in the code. -/
theorem maskFrom_of_first? {text rest : List Char} {lexeme : Lexeme}
    (h : first? text = some (lexeme, rest)) :
    maskFrom .code text = lexeme.marks.flatMap written ++ maskFrom .code rest := by
  unfold first? at h
  split at h
  · cases h
  · next rest' =>
      cases h
      rw [marks, flatMap_written_hidden]
      simp [maskFrom, Region.next, maskFrom_blockComment]
  · next rest' =>
      cases h
      rw [marks, flatMap_written_hidden]
      simp [maskFrom, Region.next, maskFrom_lineComment]
  · next c rest' hblock hline =>
      rw [maskFrom_code_cons (not_pair_of_forall hblock) (not_pair_of_forall hline)]
      split at h
      · next hquote =>
          cases h
          have hbackslash : c ≠ '\\' := by rintro rfl; revert hquote; decide
          rw [if_pos hquote, flatMap_written_literal, List.cons_append, maskFrom_quoted hbackslash]
      · next hquote =>
          rw [if_neg hquote]
          split at h
          · next htick =>
              cases h
              subst c
              rw [if_pos rfl, flatMap_written_literal, List.cons_append, maskFrom_template]
          · next htick =>
              cases h
              rw [if_neg htick]
              rfl

theorem eq_nil_of_first?_eq_none {text : List Char} (h : first? text = none) : text = [] := by
  unfold first? at h
  split at h
  · rfl
  · cases h
  · cases h
  · split at h
    · cases h
    · split at h <;> cases h

end Lexeme

theorem flatMap_marks_lexemes (text : List Char) :
    ((lexemes text).flatMap Lexeme.marks).map Prod.fst = text := by
  fun_induction lexemes text with
  | case1 text h =>
      obtain rfl := Lexeme.eq_nil_of_first?_eq_none h
      rfl
  | case2 text lexeme rest h _ ih =>
      rw [List.flatMap_cons, List.map_append, ih, Lexeme.marks_append_of_first? h]

theorem maskFrom_code_eq_written (text : List Char) :
    maskFrom .code text = ((lexemes text).flatMap Lexeme.marks).flatMap Lexeme.written := by
  fun_induction lexemes text with
  | case1 text h =>
      obtain rfl := Lexeme.eq_nil_of_first?_eq_none h
      rfl
  | case2 text lexeme rest h _ ih =>
      rw [Lexeme.maskFrom_of_first? h, ih, List.flatMap_cons, List.flatMap_append]

/-- The masked form of a text shows its lexemes from the left, and these are all of the text. -/
theorem mask_eq_written_lexemes (source : String) :
    mask source = String.ofList
        (((lexemes source.toList).flatMap Lexeme.marks).flatMap Lexeme.written) ∧
      ((lexemes source.toList).flatMap Lexeme.marks).map Prod.fst = source.toList :=
  ⟨by rw [mask, maskChars, maskFrom_code_eq_written], flatMap_marks_lexemes _⟩

end LayerLint.Source
