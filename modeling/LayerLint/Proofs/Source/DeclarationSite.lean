import LayerLint.Proofs.Source.CodePiece

/-! # Where declarations stand

Every declaration that is found stands in the code with its keyword and its name, so that a keyword
in a comment, in a literal or in a template declares nothing. No two declarations begin at one
offset: those of one kind are found from the left, and the words that those of two kinds begin with
have different first letters.
-/

namespace LayerLint.Source

open Pattern
open Text (Cursor Span byteSize)

/-- The words that a declaration of the kind may begin with. -/
def DeclarationKind.openings : DeclarationKind → List String
  | .interface => ["interface"]
  | .typeAlias => ["type"]
  | .enum => ["const", "enum"]

namespace Declaration

variable {kind kind' : DeclarationKind} {start stop : Cursor} {captures captures' : Captures}

/-! ## Heads -/

/-- The head of a declaration, with what is remembered of it: maybe a `const`, the keyword and the
name. -/
structure Head (kind : DeclarationKind) (start : Cursor) (captures : Captures) where
  lead : List Char
  gap : List Char
  name : List Char
  begins : Cursor
  ends : Cursor
  isBoundary : start.isAtWordBoundary = true
  lead_eq : lead = [] ∨ kind = .enum ∧ ∃ gap, IsGap gap ∧ lead = "const".toList ++ gap
  isGap : IsGap gap
  name_starts : name.head?.any isNameStart = true
  name_goes_on : ∀ c ∈ name, isNamePart c = true
  /-- The name is all of an identifier, unless it is an interface's and `extends` follows it at
  once. -/
  name_ends : ends.precedes isNamePart = false ∨
    kind = .interface ∧ ∃ rest, ends.rest = "extends".toList ++ rest
  reads_keyword : start.Reads (lead ++ (kind.keyword.toList ++ gap)) begins
  reads_name : begins.Reads name ends
  captures_eq : captures = [("name", ⟨begins, ends⟩)]

/-- Behind a name stand blanks, type parameters, or what ends the head. -/
theorem Parts.name_ends (parts : Parts kind start captures stop) (hkind : kind ≠ .enum) :
    parts.ends.precedes isNamePart = false ∨
      kind = .interface ∧ ∃ rest, parts.ends.rest = "extends".toList ++ rest := by
  have hmark : isNamePart '<' = false ∧ isNamePart '\x7b' = false ∧ isNamePart '=' = false := by
    decide +kernel
  rw [Cursor.precedes, parts.reads_list.rest_eq]
  cases hspace : parts.space with
  | cons c space =>
      exact .inl (isNamePart_of_isBlank c (parts.space_blank c (hspace ▸ List.mem_cons_self)))
  | nil =>
      rcases parts.list_eq with hlist | ⟨inside, trail, hlist, -⟩
      · rw [hlist]
        have hclosing := parts.closing_mem
        cases kind with
        | interface =>
            simp only [closings, List.mem_cons, List.not_mem_nil, or_false] at hclosing
            rcases hclosing with heq | heq
            · rw [heq]
              exact .inr ⟨rfl, stop.rest, rfl⟩
            · rw [heq]
              exact .inl hmark.2.1
        | typeAlias =>
            rw [List.mem_singleton.mp hclosing]
            exact .inl hmark.2.2
        | enum => exact (hkind rfl).elim
      · rw [hlist]
        exact .inl hmark.1

theorem Parts.exists_head (parts : Parts kind start captures stop) (hkind : kind ≠ .enum) :
    Nonempty (Head kind start captures) :=
  ⟨{ lead := []
     gap := parts.gap
     name := parts.name
     begins := parts.begins
     ends := parts.ends
     isBoundary := parts.isBoundary
     lead_eq := .inl rfl
     isGap := ⟨parts.gap_ne_nil, parts.gap_blank⟩
     name_starts := parts.name_starts
     name_goes_on := parts.name_goes_on
     name_ends := parts.name_ends hkind
     reads_keyword := parts.reads_keyword
     reads_name := parts.reads_name
     captures_eq := parts.captures_eq }⟩

/-- The form of enumerations. -/
def enumForm : Pattern :=
  all [boundary, maybe (andThen (word "const") someBlanks), word "enum", someBlanks, declaredName,
    blanks, one (· == '\x7b')]

theorem exists_head_of_enumForm (h : enumForm.Accepts start captures stop) :
    Nonempty (Head .enum start captures) := by
  cases h with
  | andThen hboundary h =>
  cases hboundary with
  | boundary hboundary =>
  cases h with
  | andThen hlead h =>
  obtain ⟨rfl, lead, hleadReads, hleadEq⟩ := exists_of_accepts_maybe_word hlead
  cases h with
  | andThen hkeyword h =>
  obtain ⟨rfl, hkeywordReads⟩ := hkeyword.reads_of_word
  cases h with
  | andThen hgap h =>
  obtain ⟨rfl, gap, hgapNe, hgapBlank, hgapReads⟩ := exists_of_accepts_someBlanks hgap
  cases h with
  | andThen hname h =>
  obtain ⟨rfl, name, hstarts, hgoesOn, hnameReads⟩ := exists_of_accepts_declaredName hname
  cases h with
  | andThen hspace h =>
  cases hspace with
  | @long _ _ _ space hspace hspaceBlank =>
  cases h.of_all_singleton with
  | one hbrace hisBrace =>
  refine ⟨{
    lead := lead
    gap := gap
    name := name
    begins := _
    ends := _
    isBoundary := hboundary
    lead_eq := hleadEq.imp_right fun h => ⟨rfl, h⟩
    isGap := ⟨hgapNe, hgapBlank⟩
    name_starts := hstarts
    name_goes_on := hgoesOn
    name_ends := .inl ?_
    reads_keyword := hleadReads.append (hkeywordReads.append hgapReads)
    reads_name := hnameReads
    captures_eq := rfl }⟩
  rw [Cursor.precedes, hspace.rest_eq, hbrace.rest_eq]
  cases space with
  | nil =>
      rw [eq_of_beq hisBrace]
      exact (show isNamePart '\x7b' = false by decide +kernel)
  | cons c space => exact isNamePart_of_isBlank c (hspaceBlank c List.mem_cons_self)

/-- Every form of declarations describes pieces of text that begin with a head. -/
theorem exists_head_of_form {form : DeclarationKind × Pattern} (hform : form ∈ forms)
    (h : form.2.Accepts start captures stop) : Nonempty (Head form.1 start captures) := by
  by_cases hkind : form.1 = .enum
  · simp only [forms, List.mem_cons, List.not_mem_nil, or_false] at hform
    rcases hform with rfl | rfl | rfl
    · cases hkind
    · cases hkind
    · exact exists_head_of_enumForm h
  · rw [eq_genericForm hform hkind] at h
    obtain ⟨parts⟩ := exists_parts h
    exact parts.exists_head hkind

/-! ## Heads of two kinds -/

/-- The first letters of the words that a declaration of the kind may begin with. -/
def initials (kind : DeclarationKind) : List Char :=
  kind.openings.flatMap fun opening => opening.toList.take 1

theorem Head.initial_mem (head : Head kind start captures) :
    ∃ c ∈ initials kind, start.rest.head? = some c ∧ Text.isWordChar c = true := by
  have hword : Text.isWordChar 'i' = true ∧ Text.isWordChar 't' = true ∧
      Text.isWordChar 'c' = true ∧ Text.isWordChar 'e' = true := by decide +kernel
  rw [head.reads_keyword.rest_eq]
  rcases head.lead_eq with hlead | ⟨rfl, gap, -, hlead⟩
  · rw [hlead]
    cases kind with
    | interface => exact ⟨'i', by decide, rfl, hword.1⟩
    | typeAlias => exact ⟨'t', by decide, rfl, hword.2.1⟩
    | enum => exact ⟨'e', by decide, rfl, hword.2.2.2⟩
  · rw [hlead]
    exact ⟨'c', by decide, rfl, hword.2.2.1⟩

/-- At one place there is no head of two kinds. -/
theorem Head.kind_eq (head : Head kind start captures) (head' : Head kind' start captures') :
    kind = kind' := by
  obtain ⟨c, hc, hhead, -⟩ := head.initial_mem
  obtain ⟨c', hc', hhead', -⟩ := head'.initial_mem
  obtain rfl : c = c' := Option.some.inj (hhead.symm.trans hhead')
  have hdisjoint : ∀ kind kind' : DeclarationKind, kind ≠ kind' →
      (initials kind).all (!(initials kind').contains ·) = true := by
    intro kind kind' hne
    cases kind <;> cases kind' <;> first | exact (hne rfl).elim | decide
  by_contra hne
  have hnot := List.all_eq_true.mp (hdisjoint kind kind' hne) c hc
  simp [hc'] at hnot

/-! ## No two at one offset -/

theorem ofMatch?_eq_some_iff {source : List Char} {found : Match} {declaration : Declaration} :
    ofMatch? source kind found = some declaration ↔
      found.whole.start.before.any isMemberMark = false ∧
        declaration = ⟨kind, found.text "name", found.whole.start.offset,
          .ofOffset source found.whole.start.offset⟩ := by
  rw [ofMatch?]
  split
  next hmark => simp [hmark]
  next hmark => simp [hmark, eq_comm]

theorem pairwise_filterMap_findAll (source masked : List Char)
    (form : DeclarationKind × Pattern) :
    ((form.2.findAll masked).filterMap (ofMatch? source form.1)).Pairwise
      fun first second => first.offset < second.offset := by
  rw [List.pairwise_filterMap]
  refine (pairwise_findAll form.2 masked).imp ?_
  intro found found' hlt declaration hdeclaration declaration' hdeclaration'
  rw [(ofMatch?_eq_some_iff.mp hdeclaration).2, (ofMatch?_eq_some_iff.mp hdeclaration').2]
  exact hlt

/-- Declarations of two kinds do not begin at one offset. -/
theorem offset_ne_of_forms {source masked : List Char} {form form' : DeclarationKind × Pattern}
    (hform : form ∈ forms) (hform' : form' ∈ forms) (hkind : form.1 ≠ form'.1)
    {declaration declaration' : Declaration}
    (h : declaration ∈ (form.2.findAll masked).filterMap (ofMatch? source form.1))
    (h' : declaration' ∈ (form'.2.findAll masked).filterMap (ofMatch? source form'.1)) :
    declaration.offset ≠ declaration'.offset := by
  obtain ⟨found, hfound, hdeclaration⟩ := List.mem_filterMap.mp h
  obtain ⟨found', hfound', hdeclaration'⟩ := List.mem_filterMap.mp h'
  rw [(ofMatch?_eq_some_iff.mp hdeclaration).2, (ofMatch?_eq_some_iff.mp hdeclaration').2]
  intro hoffset
  obtain ⟨hstart, haccepts⟩ := accepts_of_mem_findAll hfound
  obtain ⟨hstart', haccepts'⟩ := accepts_of_mem_findAll hfound'
  obtain ⟨head⟩ := exists_head_of_form hform haccepts
  obtain ⟨head'⟩ := exists_head_of_form hform' haccepts'
  have hsame : found.whole.start = found'.whole.start :=
    Cursor.eq_of_offset_eq hstart hstart' hoffset
  rw [← hsame] at head'
  exact hkind (head.kind_eq head')

theorem pairwise_allIn (source : String) :
    (allIn source).Pairwise fun first second => first.offset < second.offset := by
  have hkinds : forms.Pairwise fun form form' => form.1 ≠ form'.1 := by
    have hkinds : (forms.map Prod.fst).Pairwise (· ≠ ·) := by decide
    exact List.pairwise_map.mp hkinds
  let found := forms.flatMap fun form =>
    (form.2.findAll (maskChars source.toList)).filterMap (ofMatch? source.toList form.1)
  let le : Declaration → Declaration → Bool := fun first second =>
    decide (first.offset ≤ second.offset)
  have hdistinct : found.Pairwise fun first second => first.offset ≠ second.offset := by
    refine List.pairwise_flatMap.mpr ⟨fun form _ => ?_, ?_⟩
    · exact (pairwise_filterMap_findAll _ _ form).imp Nat.ne_of_lt
    · refine hkinds.imp_of_mem ?_
      intro form form' hform hform' hne declaration h declaration' h'
      exact offset_ne_of_forms hform hform' hne h h'
  have hsorted : (found.mergeSort le).Pairwise fun first second => le first second = true := by
    refine List.pairwise_mergeSort (fun first second third => ?_) (fun first second => ?_) found
    · simp only [le, decide_eq_true_eq]
      exact Nat.le_trans
    · simp only [le, Bool.or_eq_true, decide_eq_true_eq]
      exact Nat.le_total _ _
  have hdistinct' := ((List.mergeSort_perm found le).pairwise_iff Ne.symm).mpr hdistinct
  refine (hsorted.and hdistinct').imp ?_
  rintro first second ⟨hle, hne⟩
  exact Nat.lt_of_le_of_ne (of_decide_eq_true hle) hne

/-! ## Sites -/

/-- The place of a declaration in the code of a source text. -/
structure Site (source : List Char) (kind : DeclarationKind) (offset : Nat) (name : List Char)
    where
  /-- The word that the declaration begins with. -/
  opening : String
  opening_mem : opening ∈ kind.openings
  begins : CodePiece source offset opening.toList
  not_member : begins.before.getLast?.any isMemberMark = false
  not_inside : begins.before.getLast?.any Text.isWordChar = false
  keywordOffset : Nat
  keyword : CodePiece source keywordOffset kind.keyword.toList
  /-- The keyword is the word that the declaration begins with, or the next one. -/
  keyword_eq : (opening = kind.keyword ∧ keywordOffset = offset) ∨
    ∃ gap, IsGap gap ∧ keyword.seenBefore = begins.seenBefore ++ (opening.toList ++ gap)
  nameOffset : Nat
  named : CodePiece source nameOffset name
  /-- The name is the next word behind the keyword. -/
  named_behind : ∃ gap, IsGap gap ∧
    named.seenBefore = keyword.seenBefore ++ (kind.keyword.toList ++ gap)
  name_starts : name.head?.any isNameStart = true
  name_goes_on : ∀ c ∈ name, isNamePart c = true
  /-- The name is all of an identifier, unless it is an interface's and `extends` follows it at
  once. -/
  name_ends : named.after.head?.any isNamePart = false ∨
    kind = .interface ∧ ∃ rest, named.after = "extends".toList ++ rest

section

variable {source seen : List Char}

theorem isNamePart_of_opening {opening : String} (h : opening ∈ kind.openings) :
    opening.toList ≠ [] ∧ ∀ c ∈ opening.toList, isNamePart c = true := by
  have hall : ∀ kind : DeclarationKind, kind.openings.all (fun opening =>
      !opening.toList.isEmpty && opening.toList.all isNamePart) = true := by
    intro kind
    cases kind <;> decide +kernel
  have hopening := List.all_eq_true.mp (hall kind) opening h
  simp only [Bool.and_eq_true, Bool.not_eq_true', List.isEmpty_eq_false_iff,
    List.all_eq_true] at hopening
  exact hopening

theorem keyword_mem_openings (kind : DeclarationKind) : kind.keyword ∈ kind.openings := by
  cases kind <;> decide

/-- A head that is seen begins with a word of the code. -/
theorem Head.exists_opening (head : Head kind start captures)
    (hmasked : maskChars source = seen ++ start.rest) :
    ∃ opening ∈ kind.openings, ∃ opens : CodePiece source (byteSize seen) opening.toList,
      opens.seenBefore = seen ∧ ((opening = kind.keyword ∧ head.lead = []) ∨
        ∃ gap, IsGap gap ∧ head.lead = opening.toList ++ gap) := by
  have hrest := head.reads_keyword.rest_eq
  rcases head.lead_eq with hlead | ⟨rfl, gap, hgap, hlead⟩
  · rw [hlead, List.nil_append, List.append_assoc] at hrest
    rw [hrest] at hmasked
    obtain ⟨hne, hname⟩ := isNamePart_of_opening (keyword_mem_openings kind)
    obtain ⟨opens, hseen, -⟩ := exists_codePiece hmasked hne hname
    exact ⟨_, keyword_mem_openings kind, opens, hseen, .inl ⟨rfl, hlead⟩⟩
  · rw [hlead, List.append_assoc, List.append_assoc] at hrest
    rw [hrest] at hmasked
    have hmem : "const" ∈ DeclarationKind.enum.openings := List.mem_cons_self
    obtain ⟨hne, hname⟩ := isNamePart_of_opening hmem
    obtain ⟨opens, hseen, -⟩ := exists_codePiece hmasked hne hname
    exact ⟨_, hmem, opens, hseen, .inr ⟨gap, hgap, hlead⟩⟩

/-- The keyword of a head that is seen and its name are pieces of the code. -/
theorem Head.exists_pieces (head : Head kind start captures)
    (hmasked : maskChars source = seen ++ start.rest) :
    ∃ (offset nameOffset : Nat) (keyword : CodePiece source offset kind.keyword.toList)
      (name : CodePiece source nameOffset head.name),
      offset = byteSize (seen ++ head.lead) ∧ keyword.seenBefore = seen ++ head.lead ∧
      name.seenBefore = keyword.seenBefore ++ (kind.keyword.toList ++ head.gap) ∧
      (name.after.head?.any isNamePart = false ∨
        kind = .interface ∧ ∃ rest, name.after = "extends".toList ++ rest) := by
  have hrest := (head.reads_keyword.append head.reads_name).rest_eq
  obtain ⟨hne, hkeyword⟩ := isNamePart_of_opening (keyword_mem_openings kind)
  have hseenKeyword : maskChars source = (seen ++ head.lead) ++
      (kind.keyword.toList ++ (head.gap ++ (head.name ++ head.ends.rest))) := by
    rw [hmasked, hrest]
    simp
  have hseenName : maskChars source = ((seen ++ head.lead) ++ (kind.keyword.toList ++ head.gap)) ++
      (head.name ++ head.ends.rest) := by
    rw [hseenKeyword]
    simp
  have hnameNe : head.name ≠ [] := by
    intro hnil
    have hstarts := head.name_starts
    rw [hnil] at hstarts
    cases hstarts
  obtain ⟨keyword, hkeywordSeen, -⟩ := exists_codePiece hseenKeyword hne hkeyword
  obtain ⟨name, hnameSeen, hnameAfter⟩ := exists_codePiece hseenName hnameNe head.name_goes_on
  refine ⟨_, _, keyword, name, rfl, hkeywordSeen, by rw [hnameSeen, hkeywordSeen], ?_⟩
  rcases head.name_ends with hends | ⟨rfl, rest, hends⟩
  · exact .inl (name.head?_any_after (by decide +kernel) (by rw [hnameAfter]; exact hends))
  · have hextends : ∀ c ∈ "extends".toList, isNamePart c = true := by
      rw [← List.all_eq_true]
      decide +kernel
    rw [← hnameAfter] at hends
    obtain ⟨rest, hafter, -⟩ := exists_of_maskFrom_code_eq hextends hends
    exact .inr ⟨rfl, rest, hafter⟩

/-- A head that is seen behind no word character and no mark of a member is a declaration's. -/
theorem Head.exists_site (head : Head kind start captures)
    (hmasked : maskChars source = seen ++ start.rest)
    (hmark : seen.getLast?.any isMemberMark = false)
    (hword : seen.getLast?.any Text.isWordChar = false) :
    Nonempty (Site source kind (byteSize seen) head.name) := by
  obtain ⟨opening, hopening, begins, hseen, hlead⟩ := head.exists_opening hmasked
  obtain ⟨keywordOffset, nameOffset, keyword, named, hoffset, hkeywordSeen, hnameSeen, hends⟩ :=
    head.exists_pieces hmasked
  refine ⟨{
    opening := opening
    opening_mem := hopening
    begins := begins
    not_member := begins.getLast?_any_before (by decide) (by rwa [hseen])
    not_inside := begins.getLast?_any_before (by decide +kernel) (by rwa [hseen])
    keywordOffset := keywordOffset
    keyword := keyword
    keyword_eq := ?_
    nameOffset := nameOffset
    named := named
    named_behind := ⟨head.gap, head.isGap, hnameSeen⟩
    name_starts := head.name_starts
    name_goes_on := head.name_goes_on
    name_ends := hends }⟩
  refine hlead.imp (fun h => ⟨h.1, ?_⟩) fun ⟨gap, hgap, heq⟩ => ⟨gap, hgap, ?_⟩
  · rw [hoffset, h.2, List.append_nil]
  · rw [hkeywordSeen, hseen, heq]

end

theorem exists_site {source : String} {declaration : Declaration}
    (h : declaration ∈ allIn source) :
    Nonempty (Site source.toList declaration.kind declaration.offset declaration.name.toList) := by
  obtain ⟨form, hform, found, hfound, hmatch⟩ := mem_allIn_iff.mp h
  obtain ⟨hmark, rfl⟩ := ofMatch?_eq_some_iff.mp hmatch
  obtain ⟨hplace, haccepts⟩ := accepts_of_mem_findAll hfound
  obtain ⟨seen, rest, hmasked, hstart⟩ := Cursor.exists_eq_between hplace
  rw [hstart] at hmark haccepts ⊢
  obtain ⟨head⟩ := exists_head_of_form hform haccepts
  have hname : (found.text "name").toList = head.name :=
    Match.toList_text (congrArg (List.lookup "name") head.captures_eq) head.reads_name
  have hword : seen.getLast?.any Text.isWordChar = false := by
    obtain ⟨c, -, hhead, hc⟩ := head.initial_mem
    have hnext : (Cursor.between seen rest).precedes Text.isWordChar = true := by
      rw [Cursor.precedes, hhead]
      exact hc
    rw [← Bool.not_eq_true', ← head.isBoundary, Cursor.isAtWordBoundary_of_precedes hnext]
    rfl
  rw [hname]
  exact head.exists_site hmasked hmark hword

theorem position_of_mem_allIn {source : String} {declaration : Declaration}
    (h : declaration ∈ allIn source) :
    declaration.position = .ofOffset source.toList declaration.offset := by
  obtain ⟨form, -, found, -, hmatch⟩ := mem_allIn_iff.mp h
  rw [(ofMatch?_eq_some_iff.mp hmatch).2]

/-- The declarations of a source text have strictly increasing offsets. Each of them begins in the
code, behind no word character and no mark of a member, with its keyword or the `const` of an
enumeration; its name is an identifier that stands in the code behind the keyword. Its line and
column are those of its offset in the source. -/
theorem allIn_stand_in_code (source : String) :
    (allIn source).Pairwise (fun first second => first.offset < second.offset) ∧
      ∀ declaration ∈ allIn source,
        ∃ site : Site source.toList declaration.kind declaration.offset declaration.name.toList,
          declaration.position = ⟨site.begins.before.count '\n' + 1,
            (Text.lineEnd '\n' site.begins.before).length + 1⟩ := by
  refine ⟨pairwise_allIn source, fun declaration hmem => ?_⟩
  obtain ⟨site⟩ := exists_site hmem
  refine ⟨site, ?_⟩
  rw [← site.begins.ofOffset_eq]
  obtain ⟨form, -, found, -, hmatch⟩ := mem_allIn_iff.mp hmem
  rw [(ofMatch?_eq_some_iff.mp hmatch).2]

/-- A comment and a template declare nothing, and a constant enumeration begins with its `const`. -/
theorem const_enum_stands_in_code :
    let source := "// type A = 1\nconst t = \x60enum B \x7b\x7d\x60; const enum Color \x7b\x7d"
    allIn source = [⟨.enum, "Color", 37, ⟨2, 24⟩⟩] ∧
      ∃ site : Site source.toList .enum 37 "Color".toList,
        (⟨2, 24⟩ : Text.Position) = ⟨site.begins.before.count '\n' + 1,
          (Text.lineEnd '\n' site.begins.before).length + 1⟩ := by
  intro source
  have hall : allIn source = [⟨.enum, "Color", 37, ⟨2, 24⟩⟩] := by decide +kernel
  exact ⟨hall, (allIn_stand_in_code source).2 _ (by rw [hall]; exact List.mem_cons_self)⟩

-- the form of interfaces is satisfied with a part of the name if `extends` follows that part
example : (allIn "interface Boxextends<T extends \x7b\x7d> \x7b\x7d").map (·.name) = ["Box"] := by
  decide +kernel

end Declaration

end LayerLint.Source
