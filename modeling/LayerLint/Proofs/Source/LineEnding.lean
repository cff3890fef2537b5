import LayerLint.Proofs.Source.LineBreak
import LayerLint.Text.Position

/-! # Line endings

Carriage returns in front of the line feeds change nothing of what is found in a source text, nor
where it is shown, unless a backslash in a string literal stands in front of a line feed. A
backslash escapes the next character alone, which is then the carriage return, and the line feed
behind it ends the literal.
-/

/-! ## Positions -/

namespace LayerLint.Text.Position

theorem read_append_of_le {bytes : Nat} {first : List Char} (h : byteSize first ≤ bytes)
    (position : Position) (second : List Char) :
    position.read bytes (first ++ second) =
      (first.foldl advance position).read (bytes - byteSize first) second := by
  rw [read_eq_foldl, prefixWithin_append_of_le h, List.foldl_append, read_eq_foldl]

theorem read_append_eq {bytes : Nat} {first : List Char} (h : bytes ≤ byteSize first)
    (position : Position) (second second' : List Char) :
    position.read bytes (first ++ second) = position.read bytes (first ++ second') := by
  induction first generalizing position bytes with
  | nil =>
      obtain rfl : bytes = 0 := Nat.le_zero.mp h
      have hnone (text : List Char) : position.read 0 text = position := by
        rw [read_eq_foldl, prefixWithin_zero, List.foldl_nil]
      rw [List.nil_append, List.nil_append, hnone, hnone]
  | cons c rest ih =>
      rw [byteSize_cons] at h
      rw [List.cons_append, List.cons_append, read, read, ih (by omega)]

/-- A carriage return in front of a line feed moves no position, not even that of the line feed. -/
theorem advance_return_lineFeed (position : Position) :
    (position.advance '\r').advance '\n' = position.advance '\n' := rfl

end LayerLint.Text.Position

namespace LayerLint.Source

open Text (Position)

namespace LineBreak

variable (text : LineBreak)

/-- What stands at an offset is shown at the same position with the carriage return. -/
theorem ofOffset_shift (offset : Nat) :
    Position.ofOffset text.returned (text.widening.shift offset) =
      Position.ofOffset text.plain offset := by
  unfold Position.ofOffset returned plain
  rcases Nat.lt_or_ge (Text.byteSize text.before) offset with hlt | hle
  · obtain ⟨more, rfl⟩ : ∃ more, offset = Text.byteSize text.before + (more + 1) :=
      ⟨offset - Text.byteSize text.before - 1, by omega⟩
    have hfeed (position : Position) (bytes : Nat) (rest : List Char) :
        position.read (bytes + 1) ('\n' :: rest) = (position.advance '\n').read bytes rest := rfl
    have hreturn (position : Position) (bytes : Nat) (rest : List Char) :
        position.read (bytes + 1) ('\r' :: rest) = (position.advance '\r').read bytes rest := rfl
    rw [text.shift_of_lt hlt, Position.read_append_of_le (by omega),
      Position.read_append_of_le (by omega), Nat.add_assoc, Nat.add_sub_cancel_left,
      Nat.add_sub_cancel_left, hreturn, hfeed, hfeed, Position.advance_return_lineFeed]
  · rw [text.shift_of_le hle]
    exact Position.read_append_eq hle _ _ _

end LineBreak

/-! ## What is found, and where -/

/-- What a reference refers to and how, and its position in the source. -/
def Reference.located (source : List Char) (reference : Reference) :
    String × ReferenceKind × Position :=
  (reference.specifier, reference.kind, .ofOffset source reference.offset)

/-- What is declared, and at which position. -/
def Declaration.located (declaration : Declaration) : DeclarationKind × String × Position :=
  (declaration.kind, declaration.name, declaration.position)

/-- The references and the declarations of a source text, with their positions. -/
def findings (source : List Char) :
    List (String × ReferenceKind × Position) × List (DeclarationKind × String × Position) :=
  ((Reference.allIn (String.ofList source)).map (Reference.located source),
    (Declaration.allIn (String.ofList source)).map Declaration.located)

/-- A declaration has the position of its offset. -/
theorem Declaration.position_of_mem {source masked : List Char} {declaration : Declaration}
    (h : declaration ∈ allInMasked source masked) :
    declaration.position = .ofOffset source declaration.offset := by
  obtain ⟨form, -, hfound⟩ := List.mem_flatMap.mp (List.mem_mergeSort.mp h)
  obtain ⟨found, -, hmatch⟩ := List.mem_filterMap.mp hfound
  unfold ofMatch? at hmatch
  split at hmatch
  · cases hmatch
  · cases hmatch
    rfl

theorem Declaration.map_located (source masked : List Char) :
    (allInMasked source masked).map located = ((allInMasked source masked).map declared).map
      fun entry => (entry.1, entry.2.1, Position.ofOffset source entry.2.2) := by
  rw [List.map_map]
  apply List.map_congr_left
  intro declaration hdeclaration
  rw [located, position_of_mem hdeclaration]
  rfl

namespace LineBreak

variable (text : LineBreak)

theorem references_returned : (Reference.allIn (String.ofList text.returned)).map
      (Reference.located text.returned) =
    (Reference.allIn (String.ofList text.plain)).map (Reference.located text.plain) := by
  rw [Reference.allIn, Reference.allIn, String.toList_ofList, String.toList_ofList,
    Reference.allInMasked_respelled _ text.respells, text.spread.allInMasked_eq,
    text.maskChars_plain, List.map_map]
  apply List.map_congr_left
  intro reference _
  exact congrArg (fun position => (reference.specifier, reference.kind, position))
    (text.ofOffset_shift reference.offset)

theorem declarations_returned :
    (Declaration.allIn (String.ofList text.returned)).map Declaration.located =
      (Declaration.allIn (String.ofList text.plain)).map Declaration.located := by
  rw [Declaration.allIn_eq_allInMasked, Declaration.allIn_eq_allInMasked, String.toList_ofList,
    String.toList_ofList, Declaration.allInMasked_respelled _ text.respells, text.maskChars_plain,
    Declaration.map_located, Declaration.map_located,
    Declaration.allInMasked_eq text.widening text.plain, List.map_map]
  apply List.map_congr_left
  intro entry _
  exact congrArg (fun position => (entry.1, entry.2.1, position)) (text.ofOffset_shift entry.2.2)

/-- The same is found with the carriage return, at the same positions. -/
theorem findings_returned : findings text.returned = findings text.plain :=
  Prod.ext text.references_returned text.declarations_returned

end LineBreak

/-! ## All line breaks -/

/-- A line feed with a carriage return in front of it, and any other character alone. -/
def withReturn (c : Char) : List Char :=
  if c = '\n' then ['\r', '\n'] else [c]

/-- The source text with a carriage return in front of every line feed. -/
def withReturns (source : String) : String :=
  String.ofList (source.toList.flatMap withReturn)

/-- No backslash of a string literal stands in front of a line feed. -/
def BreaksUnescaped (source : List Char) : Prop :=
  ∀ index < source.length, source[index]? = some '\n' →
    (regionAt (source.take index) (source.drop index)).isEscaped = false

instance : DecidablePred BreaksUnescaped := fun source =>
  inferInstanceAs (Decidable (∀ index < source.length, source[index]? = some '\n' →
    (regionAt (source.take index) (source.drop index)).isEscaped = false))

theorem BreaksUnescaped.isEscaped_eq_false {source before after : List Char}
    (h : BreaksUnescaped source) (hsource : source = before ++ '\n' :: after) :
    (regionAt before ('\n' :: after)).isEscaped = false := by
  subst hsource
  have hbreak := h before.length (by simp) (by simp)
  rwa [List.take_left', List.drop_left'] at hbreak
  all_goals rfl

/-- Behind a beginning of the text that is left as it is, carriage returns change nothing. -/
theorem findings_flatMap_withReturn (before after : List Char)
    (h : BreaksUnescaped (before ++ after)) :
    findings (before ++ after.flatMap withReturn) = findings (before ++ after) := by
  induction after generalizing before with
  | nil => rfl
  | cons c rest ih =>
      have hrest : findings ((before ++ [c]) ++ rest.flatMap withReturn) =
          findings (before ++ c :: rest) := by
        rw [ih (before ++ [c]) (by simpa using h), List.append_assoc]
        rfl
      rw [List.flatMap_cons, ← hrest, withReturn, List.append_assoc]
      split
      next hc =>
        subst hc
        have hbreak : (regionAt before ('\n' :: rest)).isEscaped = false := h.isEscaped_eq_false rfl
        let text : LineBreak := ⟨before, rest.flatMap withReturn, hbreak⟩
        exact text.findings_returned
      next => rfl

/-- Unless a line feed is escaped in a string literal, carriage returns in front of all line feeds
change nothing: the same references and declarations are found, in the same order and at the same
lines and columns. -/
theorem findings_withReturns (source : String) (h : BreaksUnescaped source.toList) :
    (Reference.allIn (withReturns source)).map (Reference.located (withReturns source).toList) =
        (Reference.allIn source).map (Reference.located source.toList) ∧
      (Declaration.allIn (withReturns source)).map Declaration.located =
        (Declaration.allIn source).map Declaration.located := by
  have hall := findings_flatMap_withReturn [] source.toList h
  rw [List.nil_append, List.nil_append, findings, findings, String.ofList_toList] at hall
  rw [withReturns, String.toList_ofList]
  exact Prod.ext_iff.mp hall

/-- Line feeds that end a comment, stand in one, are escaped in a template or come right behind a
literal: with carriage returns all is found where it was. -/
theorem findings_of_returned_template :
    let source :=
      "import a from './a'; // it's a\n/* b\n */const t = `\\\n`;\nexport type Id = 'x'\n"
    BreaksUnescaped source.toList ∧
      (Reference.allIn (withReturns source)).map (Reference.located (withReturns source).toList) =
        [("./a", .staticImport, ⟨1, 16⟩)] ∧
      (Declaration.allIn (withReturns source)).map Declaration.located =
        [(.typeAlias, "Id", ⟨5, 8⟩)] := by
  intro source
  have hbreaks : BreaksUnescaped source.toList := by decide +kernel
  obtain ⟨hreferences, hdeclarations⟩ := findings_withReturns source hbreaks
  refine ⟨hbreaks, hreferences.trans ?_, hdeclarations.trans ?_⟩
  · decide +kernel
  · decide +kernel

/-- Behind a literal that goes on in the next line a reference is found, but no longer with carriage
returns: the literal ends at the line feed, and its quote opens another one. -/
theorem escaped_break_hides_reference :
    let source := "const s = 'a\\\nb'; require('./x');"
    '\r' ∉ source.toList ∧
      (Reference.allIn source).map (Reference.located source.toList) =
        [("./x", .require, ⟨2, 14⟩)] ∧
      Reference.allIn (withReturns source) = [] := by
  decide +kernel

end LayerLint.Source
