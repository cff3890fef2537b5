import LayerLint.Proofs.Source.Callee
import LayerLint.Proofs.Source.WidenedDeclaration

/-! # The form of a declared type

A piece of text that declares an interface or a type alias has a keyword, a name, maybe a list of
type parameters, and what opens the declaration. The name that a match remembers is as long as it
can be.
-/

namespace LayerLint.Source

open Pattern
open Text (Cursor Span)
open Text.Cursor (between)

namespace DeclarationKind

/-- The characters that the form of a kind bars from its list of type parameters. -/
def barred : DeclarationKind → List Char
  | .interface => ['\x7b', ';']
  | .typeAlias => [';', '\x7b', '\x7d']
  | .enum => []

/-- The character that follows on the type parameters of a declaration. -/
def opener : DeclarationKind → Char
  | .interface | .enum => '\x7b'
  | .typeAlias => '='

/-- What follows on the name and the type parameters in the form of a kind. -/
def closing : DeclarationKind → Pattern
  | .interface | .enum => .orElse (.andThen (word "extends") .boundary) (.one (· == '\x7b'))
  | .typeAlias => word "="

end DeclarationKind

/-- A piece of text that sets two words apart. -/
def IsGap (gap : List Char) : Prop :=
  gap ≠ [] ∧ ∀ c ∈ gap, Text.isBlank c = true

namespace Declaration

/-! ## The form of a kind -/

/-- The form of the declarations of a kind that may have type parameters. -/
def genericForm (kind : DeclarationKind) : Pattern :=
  all [boundary, word kind.keyword, someBlanks, declaredName, blanks, parameters kind.barred,
    kind.closing]

theorem genericForm_mem_forms {kind : DeclarationKind} (h : kind ≠ .enum) :
    (kind, genericForm kind) ∈ forms := by
  cases kind with
  | interface => exact List.mem_cons_self
  | typeAlias => exact List.mem_cons_of_mem _ List.mem_cons_self
  | enum => exact (h rfl).elim

theorem eq_genericForm {form : DeclarationKind × Pattern} (hform : form ∈ forms)
    (h : form.1 ≠ .enum) : form.2 = genericForm form.1 := by
  simp only [forms, List.mem_cons, List.not_mem_nil, or_false] at hform
  rcases hform with rfl | rfl | rfl
  · rfl
  · rfl
  · exact (h rfl).elim

/-- The pieces of text that end the head of a declaration. -/
def closings : DeclarationKind → List (List Char)
  | .interface | .enum => ["extends".toList, ['\x7b']]
  | .typeAlias => [['=']]

variable {kind : DeclarationKind} {start stop : Cursor} {captures : Captures}

theorem exists_of_accepts_closing (h : kind.closing.Accepts start captures stop) :
    captures = [] ∧ ∃ piece ∈ closings kind, start.Reads piece stop := by
  cases kind with
  | interface | enum =>
      cases h with
      | orElseFirst h =>
          cases h with
          | andThen hword hboundary =>
              cases hboundary
              obtain ⟨rfl, hreads⟩ := hword.reads_of_word
              exact ⟨rfl, _, List.mem_cons_self, hreads⟩
      | orElseSecond h =>
          cases h with
          | one hreads hbrace =>
              rw [eq_of_beq hbrace] at hreads
              exact ⟨rfl, _, List.mem_cons_of_mem _ List.mem_cons_self, hreads⟩
  | typeAlias =>
      obtain ⟨rfl, hreads⟩ := h.reads_of_word
      exact ⟨rfl, _, List.mem_cons_self, hreads⟩

theorem exists_of_accepts_parameters {barred : List Char}
    (h : (parameters barred).Accepts start captures stop) :
    captures = [] ∧ ∃ list, start.Reads list stop ∧ (list = [] ∨
      ∃ inside trail, list = '<' :: (inside ++ '>' :: trail) ∧ (∀ c ∈ inside, c ∉ barred) ∧
        ∀ c ∈ trail, Text.isBlank c = true) := by
  cases h with
  | orElseSecond h =>
      cases h
      exact ⟨rfl, [], .refl _, .inl rfl⟩
  | orElseFirst h =>
      cases h with
      | andThen hopen h =>
      obtain ⟨rfl, hopenReads⟩ := hopen.reads_of_word
      cases h with
      | andThen hinside h =>
      cases hinside with
      | short hinside hbarred =>
      cases h with
      | andThen hclose h =>
      obtain ⟨rfl, hcloseReads⟩ := hclose.reads_of_word
      cases h.of_all_singleton with
      | long htrail hblank =>
      refine ⟨rfl, _, hopenReads.append (hinside.append (hcloseReads.append htrail)),
        .inr ⟨_, _, rfl, fun c hc => ?_, hblank⟩⟩
      simpa using hbarred c hc

/-- A piece of text that the form of a kind describes, part by part. -/
structure Parts (kind : DeclarationKind) (start : Cursor) (captures : Captures) (stop : Cursor)
    where
  gap : List Char
  name : List Char
  space : List Char
  list : List Char
  closing : List Char
  begins : Cursor
  ends : Cursor
  isBoundary : start.isAtWordBoundary = true
  gap_ne_nil : gap ≠ []
  gap_blank : ∀ c ∈ gap, Text.isBlank c = true
  name_starts : name.head?.any isNameStart = true
  name_goes_on : ∀ c ∈ name, isNamePart c = true
  space_blank : ∀ c ∈ space, Text.isBlank c = true
  list_eq : list = [] ∨ ∃ inside trail, list = '<' :: (inside ++ '>' :: trail) ∧
    (∀ c ∈ inside, c ∉ kind.barred) ∧ ∀ c ∈ trail, Text.isBlank c = true
  closing_mem : closing ∈ closings kind
  reads_keyword : start.Reads (kind.keyword.toList ++ gap) begins
  reads_name : begins.Reads name ends
  reads_list : ends.Reads (space ++ (list ++ closing)) stop
  captures_eq : captures = [("name", ⟨begins, ends⟩)]

theorem isNamePart_of_isNameStart {c : Char} (h : isNameStart c = true) : isNamePart c = true :=
  RouterBindings.isNamePart_of_isNameChar (RouterBindings.isNameChar_of_isNameStart h)

theorem exists_of_accepts_someBlanks (h : someBlanks.Accepts start captures stop) :
    captures = [] ∧ ∃ gap, gap ≠ [] ∧ (∀ c ∈ gap, Text.isBlank c = true) ∧
      start.Reads gap stop := by
  cases h with
  | andThen hblank hblanks =>
  cases hblank with
  | one hblank hisBlank =>
  cases hblanks with
  | long hblanks hareBlank =>
  exact ⟨rfl, _, List.cons_ne_nil _ _, List.forall_mem_cons.mpr ⟨hisBlank, hareBlank⟩,
    hblank.append hblanks⟩

/-- A word that may stand before another one. -/
theorem exists_of_accepts_maybe_word {text : String}
    (h : (maybe (andThen (word text) someBlanks)).Accepts start captures stop) :
    captures = [] ∧ ∃ lead, start.Reads lead stop ∧
      (lead = [] ∨ ∃ gap, IsGap gap ∧ lead = text.toList ++ gap) := by
  cases h with
  | orElseSecond h =>
      cases h
      exact ⟨rfl, [], .refl _, .inl rfl⟩
  | orElseFirst h =>
      cases h with
      | andThen hword hblanks =>
          obtain ⟨rfl, hwordReads⟩ := hword.reads_of_word
          obtain ⟨rfl, gap, hne, hblank, hgapReads⟩ := exists_of_accepts_someBlanks hblanks
          exact ⟨rfl, _, hwordReads.append hgapReads, .inr ⟨gap, ⟨hne, hblank⟩, rfl⟩⟩

theorem exists_of_accepts_declaredName (h : declaredName.Accepts start captures stop) :
    captures = [("name", ⟨start, stop⟩)] ∧ ∃ name : List Char,
      name.head?.any isNameStart = true ∧ (∀ c ∈ name, isNamePart c = true) ∧
      start.Reads name stop := by
  cases h with
  | named h =>
  cases h with
  | andThen hfirst hrest =>
  cases hfirst with
  | @one _ _ _ first hfirst hstarts =>
  cases hrest with
  | @long _ _ _ rest hrest hgoesOn =>
  exact ⟨rfl, first :: rest, hstarts,
    List.forall_mem_cons.mpr ⟨isNamePart_of_isNameStart hstarts, hgoesOn⟩, hfirst.append hrest⟩

theorem exists_parts (h : (genericForm kind).Accepts start captures stop) :
    Nonempty (Parts kind start captures stop) := by
  cases h with
  | andThen hboundary h =>
  cases hboundary with
  | boundary hboundary =>
  cases h with
  | andThen hkeyword h =>
  obtain ⟨rfl, hkeywordReads⟩ := hkeyword.reads_of_word
  cases h with
  | andThen hgap h =>
  obtain ⟨rfl, gap, hgapNe, hgapBlank, hgapReads⟩ := exists_of_accepts_someBlanks hgap
  cases h with
  | andThen hname h =>
  obtain ⟨rfl, name, hstarts, hgoesOn, hnameReads⟩ := exists_of_accepts_declaredName hname
  cases h with
  | andThen hspace h =>
  cases hspace with
  | long hspace hspaceBlank =>
  cases h with
  | andThen hlist h =>
  obtain ⟨rfl, list, hlistReads, hlistEq⟩ := exists_of_accepts_parameters hlist
  obtain ⟨rfl, closing, hclosing, hclosingReads⟩ := exists_of_accepts_closing h.of_all_singleton
  exact ⟨{
    gap := gap
    name := name
    space := _
    list := list
    closing := closing
    begins := _
    ends := _
    isBoundary := hboundary
    gap_ne_nil := hgapNe
    gap_blank := hgapBlank
    name_starts := hstarts
    name_goes_on := hgoesOn
    space_blank := hspaceBlank
    list_eq := hlistEq
    closing_mem := hclosing
    reads_keyword := hkeywordReads.append hgapReads
    reads_name := hnameReads
    reads_list := hspace.append (hlistReads.append hclosingReads)
    captures_eq := rfl }⟩

/-! ## The match at a place -/

theorem isDelimiter_eq_false_of_isNamePart {c : Char} (h : isNamePart c = true) :
    isDelimiter c = false ∧ c ≠ '/' ∧ Text.isBlank c = false := by
  have hpart : isNamePart '\'' = false ∧ isNamePart '"' = false ∧ isNamePart backTick = false ∧
      isNamePart '/' = false := by decide +kernel
  refine ⟨?_, ?_, ?_⟩
  · rw [Bool.eq_false_iff]
    intro hdelimiter
    simp only [isDelimiter, Bool.or_eq_true, beq_iff_eq] at hdelimiter
    rcases hdelimiter with (rfl | rfl) | rfl <;> simp_all
  · rintro rfl
    simp_all
  · rw [Bool.eq_false_iff]
    intro hblank
    rw [isNamePart, isNamePart_of_isBlank c hblank] at h
    cases h

theorem captures_eq_nil_of_accepts
    (h : (all [blanks, parameters kind.barred, kind.closing]).Accepts start captures stop) :
    captures = [] := by
  cases h with
  | andThen hspace h =>
  cases hspace with
  | long =>
  cases h with
  | andThen hlist h =>
  obtain ⟨rfl, -⟩ := exists_of_accepts_parameters hlist
  obtain ⟨rfl, -⟩ := exists_of_accepts_closing h.of_all_singleton
  rfl

theorem accepts_opener (kind : DeclarationKind) (before rest : List Char) :
    kind.closing.Accepts (between before (kind.opener :: rest)) []
      (between (before ++ [kind.opener]) rest) := by
  have hreads := Cursor.reads_between before [kind.opener] rest
  cases kind with
  | interface | enum => exact .orElseSecond (.one hreads rfl)
  | typeAlias => exact .word_of_reads hreads

/-- Behind the name of a head stands a list of parameters, if none of them is barred. -/
theorem exists_accepts_behind_name {parameters : List Char} (before rest : List Char)
    (hplain : ∀ c ∈ parameters, c ∉ kind.barred) :
    ∃ captures stop, (all [blanks, Declaration.parameters kind.barred, kind.closing]).Accepts
      (between before ('<' :: (parameters ++ '>' :: ' ' :: kind.opener :: rest))) captures stop := by
  have hopen := Cursor.reads_between before ['<'] (parameters ++ '>' :: ' ' :: kind.opener :: rest)
  have hinside :=
    Cursor.reads_between (before ++ ['<']) parameters ('>' :: ' ' :: kind.opener :: rest)
  have hclose :=
    Cursor.reads_between ((before ++ ['<']) ++ parameters) ['>'] (' ' :: kind.opener :: rest)
  have hspace := Cursor.reads_between (((before ++ ['<']) ++ parameters) ++ ['>']) [' ']
    (kind.opener :: rest)
  have hlast := accepts_opener kind ((((before ++ ['<']) ++ parameters) ++ ['>']) ++ [' ']) rest
  have hbarred : ∀ c ∈ parameters, (!kind.barred.contains c) = true := fun c hc => by
    simpa using hplain c hc
  exact ⟨_, _, .andThen (.long (.refl _) (List.forall_mem_nil _)) (.andThen
    (.orElseFirst (.andThen (.word_of_reads hopen) (.andThen (.short hinside hbarred)
      (.andThen (.word_of_reads hclose) (.andThen (.long hspace (List.forall_mem_singleton.mpr
        (by decide))) .empty)))))
    (.andThen hlast .empty))⟩

/-- The name that is remembered is as long as it can be. -/
theorem exists_matchAt?_of_reads {begins ends middle : Cursor} {first : Char} {rest : List Char}
    (hboundary : start.isAtWordBoundary = true)
    (hkeyword : start.Reads kind.keyword.toList middle) (hgap : middle.Reads [' '] begins)
    (hname : begins.Reads (first :: rest) ends) (hfirst : isNameStart first = true)
    (hrest : ∀ c ∈ rest, isNamePart c = true) (hend : ends.precedes isNamePart = false)
    (hbehind : (all [blanks, parameters kind.barred, kind.closing]).Accepts ends captures stop) :
    ∃ stop, (genericForm kind).matchAt? start =
      some ⟨⟨start, stop⟩, [("name", ⟨begins, ends⟩)]⟩ := by
  -- what follows on the name is described, so the longest name has an outcome
  let last : Pattern := all [blanks, parameters kind.barred, kind.closing]
  let final : Cursor → Option (Captures × Cursor) := fun stop => some ([], stop)
  obtain ⟨stop', hlast⟩ : ∃ stop', last.outcomeAt final ends = some ([], stop') := by
    obtain ⟨found, hfound⟩ := Option.isSome_iff_exists.mp
      (isSome_outcomeAt hbehind (show (final stop).isSome = true from rfl))
    obtain ⟨stop', captures', more, haccepts, hfinal, rfl⟩ := exists_of_outcomeAt_eq_some hfound
    obtain rfl := captures_eq_nil_of_accepts haccepts
    cases hfinal
    exact ⟨stop', hfound⟩
  have hdeclared : declaredName.outcomeAt (last.outcomeAt final) begins =
      some ([("name", ⟨begins, ends⟩)], stop') :=
    outcomeAt_named hname hfirst hrest hend hlast
  have hbegins : begins.precedes Text.isBlank = false := by
    rw [Cursor.precedes, hname.rest_eq]
    exact (isDelimiter_eq_false_of_isNamePart (isNamePart_of_isNameStart hfirst)).2.2
  have hblanks : someBlanks.outcomeAt (declaredName.outcomeAt (last.outcomeAt final)) middle =
      some ([("name", ⟨begins, ends⟩)], stop') := by
    rw [← hdeclared]
    exact outcomeAt_one_long hgap (by decide) (List.forall_mem_nil _) hbegins
      (by rw [hdeclared]; rfl)
  have hform : (genericForm kind).outcomeAt final start =
      some ([("name", ⟨begins, ends⟩)], stop') := by
    have hword := (outcomeAt_word hkeyword).trans hblanks
    exact (congrArg (Option.filter fun _ => start.isAtWordBoundary) hword).trans
      (by rw [hboundary]; rfl)
  exact ⟨stop', by rw [matchAt?, hform]; rfl⟩

/-! ## All declarations -/

theorem mem_allIn_iff {source : String} {declaration : Declaration} :
    declaration ∈ allIn source ↔ ∃ form ∈ forms,
      ∃ found ∈ form.2.findAll (maskChars source.toList),
        ofMatch? source.toList form.1 found = some declaration := by
  simp [allIn]

end Declaration

end LayerLint.Source
