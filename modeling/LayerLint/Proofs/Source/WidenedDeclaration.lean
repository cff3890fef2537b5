import LayerLint.Proofs.Pattern.WideSearch
import LayerLint.Source.Declaration

/-! # Declarations in a widened source text

The forms of declarations have the same matches in a masked text and in the same text widened by
blanks. So both texts declare the same names, and the offsets of the declarations differ by the
blanks.
-/

namespace LayerLint.Source

open Pattern
open Text (Cursor Widening)

theorem isNameStart_of_isBlank : ∀ c, Text.isBlank c = true → isNameStart c = false :=
  Text.forall_isBlank_not (by decide)

theorem isMemberMark_of_isBlank : ∀ c, Text.isBlank c = true → isMemberMark c = false :=
  Text.forall_isBlank_not (by decide)

theorem isBrace_of_isBlank : ∀ c, Text.isBlank c = true → (c == '\x7b') = false :=
  Text.forall_isBlank_not (by decide)

namespace Declaration

variable {w : Widening}

theorem isNamePart_of_isBlank :
    ∀ c, Text.isBlank c = true → (Text.isWordChar c || c == '$') = false :=
  Text.forall_isBlank_not (by decide +kernel)

/-! ## The forms -/

theorem keeps_declaredName : Keeps w declaredName .free .silent :=
  Keeps.named "name" ((Keeps.one_of_solid isNameStart_of_isBlank).andThen
    (Keeps.long_of_solid isNamePart_of_isBlank) rfl)

theorem remembers_declaredName : declaredName.Remembers "name" Solid :=
  ⟨fun _ => solid_of_one_long isNameStart_of_isBlank isNamePart_of_isBlank, trivial, trivial⟩

theorem keeps_parameters {barred : List Char}
    (hbarred : ∀ c, Text.isBlank c = true → (!barred.contains c) = true) :
    Keeps w (parameters barred) .silent .silent := by
  have hblanks : Keeps w blanks .silent .exact := Keeps.blanks.of_covers rfl rfl
  have hclose : Keeps w (word ">") .free .silent := Keeps.word (by decide) (by decide)
  have hopen : Keeps w (word "<") .free .silent := Keeps.word (by decide) (by decide)
  have hinside := (Keeps.short_of_open hbarred).andThen (hclose.andThen hblanks.last rfl) rfl
  exact (hopen.andThen hinside rfl).maybe (.inl rfl) rfl

/-- A keyword, a name, perhaps parameters, and what shows that a type is declared. -/
theorem keeps_typeForm {keyword : String} (hne : keyword.toList ≠ [])
    (hsolid : keyword.toList.all (!Text.isBlank ·) = true) {barred : List Char}
    (hbarred : ∀ c, Text.isBlank c = true → (!barred.contains c) = true) {last : Pattern}
    (hlast : Keeps w last .exact .silent) :
    Keeps w (all [boundary, word keyword, someBlanks, declaredName, blanks, parameters barred, last])
      .exact .silent := by
  have hrest := Keeps.blanks.andThen ((keeps_parameters hbarred).andThen hlast.last rfl) rfl
  have hname := Keeps.someBlanks.andThen (keeps_declaredName.andThen hrest rfl) rfl
  exact Keeps.boundary.andThen ((Keeps.word hne hsolid).andThen hname rfl) rfl

theorem keeps_form {form : DeclarationKind × Pattern} (hform : form ∈ forms) :
    Keeps w form.2 .exact .silent := by
  have hbrace : Keeps w (one (· == '\x7b')) .exact .silent :=
    (Keeps.one_of_solid isBrace_of_isBlank).of_covers rfl rfl
  simp only [forms, List.mem_cons, List.not_mem_nil, or_false] at hform
  rcases hform with rfl | rfl | rfl
  · have hword : Keeps w (word "extends") .free .silent := Keeps.word (by decide) (by decide)
    have hextends : Keeps w (.andThen (word "extends") boundary) .exact .silent :=
      (hword.andThen Keeps.boundary rfl).of_covers rfl rfl
    exact keeps_typeForm (by decide) (by decide) (Text.forall_isBlank (by decide))
      (hextends.orElse (.inl rfl) hbrace)
  · have hequals : Keeps w (word "=") .exact .silent :=
      (Keeps.word (by decide) (by decide)).of_covers rfl rfl
    exact keeps_typeForm (by decide) (by decide) (Text.forall_isBlank (by decide)) hequals
  · have hname := keeps_declaredName.andThen (Keeps.blanks.andThen hbrace.last rfl) rfl
    have hword : Keeps w (word "enum") .free .silent := Keeps.word (by decide) (by decide)
    have henum := hword.andThen (Keeps.someBlanks.andThen hname rfl) rfl
    have hconst : Keeps w (word "const") .free .silent := Keeps.word (by decide) (by decide)
    have hblanks : Keeps w someBlanks .silent .free := Keeps.someBlanks.of_covers rfl rfl
    have hmaybe := (hconst.andThen hblanks rfl).maybe (.inl rfl) rfl
    exact Keeps.boundary.andThen (hmaybe.andThen henum rfl) rfl

theorem remembers_parameters (barred : List Char) : (parameters barred).Remembers "name" Solid :=
  ⟨⟨remembers_word "<", trivial, remembers_word ">", trivial, trivial⟩, trivial⟩

/-- Every form remembers the declared name alone. -/
theorem remembers_form {form : DeclarationKind × Pattern} (hform : form ∈ forms) :
    form.2.Remembers "name" Solid := by
  have hblanks : someBlanks.Remembers "name" Solid := ⟨trivial, trivial⟩
  simp only [forms, List.mem_cons, List.not_mem_nil, or_false] at hform
  rcases hform with rfl | rfl | rfl
  · exact ⟨trivial, remembers_word "interface", hblanks, remembers_declaredName, trivial,
      remembers_parameters _, ⟨⟨remembers_word "extends", trivial⟩, trivial⟩, trivial⟩
  · exact ⟨trivial, remembers_word "type", hblanks, remembers_declaredName, trivial,
      remembers_parameters _, remembers_word "=", trivial⟩
  · exact ⟨trivial, ⟨⟨remembers_word "const", hblanks⟩, trivial⟩, remembers_word "enum", hblanks,
      remembers_declaredName, trivial, trivial, trivial⟩

/-! ## All declarations -/

/-- What is declared, and where. -/
def declared (declaration : Declaration) : DeclarationKind × String × Nat :=
  (declaration.kind, declaration.name, declaration.offset)

/-- What is declared, at the same place of the wide text. -/
def shiftDeclared (w : Widening) (entry : DeclarationKind × String × Nat) :
    DeclarationKind × String × Nat :=
  (entry.1, entry.2.1, w.shift entry.2.2)

theorem ofMatch?_declared {form : DeclarationKind × Pattern} (hform : form ∈ forms)
    (source source' : List Char) {found found' : Match}
    (h : MatchAlike w.Twin w.Near form.2 found found') :
    (ofMatch? source' form.1 found').map declared =
      ((ofMatch? source form.1 found).map declared).map (shiftDeclared w) := by
  rw [ofMatch?, ofMatch?, h.start.before_any_eq isMemberMark_of_isBlank,
    h.text_eq (remembers_form hform)]
  split
  · rfl
  · simp [declared, shiftDeclared, h.start.offset_eq]

/-- The declarations that are seen in a masked text, by offset. -/
def allInMasked (source masked : List Char) : List Declaration :=
  (forms.flatMap fun form => (form.2.findAll masked).filterMap (ofMatch? source form.1)).mergeSort
    fun first second => decide (first.offset ≤ second.offset)

theorem allIn_eq_allInMasked (source : String) :
    allIn source = allInMasked source.toList (maskChars source.toList) := rfl

/-- What is declared is sorted by its offset, as the declarations themselves are. -/
theorem map_declared_mergeSort (declarations : List Declaration) :
    (declarations.mergeSort fun first second => decide (first.offset ≤ second.offset)).map
        declared =
      (declarations.map declared).mergeSort fun first second => decide (first.2.2 ≤ second.2.2) :=
  List.map_mergeSort fun _ _ _ _ => rfl

/-- In a widened text the same names are declared, those behind the blanks at greater offsets. -/
theorem allInMasked_eq (w : Widening) (plain spread : List Char) :
    (allInMasked spread w.wide).map declared =
      ((allInMasked plain w.narrow).map declared).map (shiftDeclared w) := by
  have hshift (entries : List (DeclarationKind × String × Nat)) :
      (entries.mergeSort fun first second => decide (first.2.2 ≤ second.2.2)).map
          (shiftDeclared w) =
        (entries.map (shiftDeclared w)).mergeSort fun first second =>
          decide (first.2.2 ≤ second.2.2) := by
    apply List.map_mergeSort
    intro first _ second _
    exact decide_eq_decide.mpr w.shift_le_shift_iff.symm
  have hfound : (forms.flatMap fun form => (form.2.findAll w.wide).filterMap
        (ofMatch? spread form.1)).map declared =
      ((forms.flatMap fun form => (form.2.findAll w.narrow).filterMap
        (ofMatch? plain form.1)).map declared).map (shiftDeclared w) := by
    rw [List.map_flatMap, List.map_flatMap, List.map_flatMap]
    apply List.flatMap_congr
    intro form hform
    rw [List.map_filterMap, List.map_filterMap]
    exact filterMap_eq_of_forall₂ (keeps_form hform).forall₂_findAll
      (ofMatch?_declared hform plain spread)
  rw [allInMasked, allInMasked, map_declared_mergeSort, map_declared_mergeSort, hfound, hshift]

end Declaration

end LayerLint.Source
