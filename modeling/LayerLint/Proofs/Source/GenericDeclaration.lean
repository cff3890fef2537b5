import LayerLint.Proofs.Source.CodePiece

/-! # Declarations with type parameters

An interface or a type alias with type parameters is found where its head stands in the code, if its
list of parameters holds none of the characters that the form of its kind bars there. A list with an
object type holds one: the declaration is then missed, although its brackets are balanced.
-/

namespace LayerLint.Source

open Pattern
open Text (Cursor Span)
open Text.Cursor (between)

/-- The head of a declaration with type parameters that have no literals and no comments. -/
structure GenericHead where
  kind : DeclarationKind
  first : Char
  rest : List Char
  parameters : List Char
  kind_ne_enum : kind ≠ .enum
  first_starts : isNameStart first = true
  rest_goes_on : rest.all isNamePart = true
  no_literal : parameters.all (!isDelimiter ·) = true
  no_lineComment : ¬"//".toList <:+: parameters
  no_blockComment : ¬"/*".toList <:+: parameters

namespace GenericHead

variable (head : GenericHead)

/-- The declared name. -/
def name : List Char := head.first :: head.rest

/-- The head as it is written. -/
def chars : List Char :=
  head.kind.keyword.toList ++ ' ' :: (head.name ++
    '<' :: (head.parameters ++ ['>', ' ', head.kind.opener]))

end GenericHead

/-- A text that ends in the head of a declaration: behind its keyword, or in its type
parameters. -/
def EndsInHead (kind : DeclarationKind) (text : List Char) : Prop :=
  ∃ lead gap tail, text = lead ++ (kind.keyword.toList ++ (gap ++ tail)) ∧
    lead.getLast?.any Text.isWordChar = false ∧ gap ≠ [] ∧ (∀ c ∈ gap, Text.isBlank c = true) ∧
    (tail = [] ∨ ∃ name space inside, tail = name ++ (space ++ '<' :: inside) ∧
      name.head?.any isNameStart = true ∧ (∀ c ∈ name, isNamePart c = true) ∧
      (∀ c ∈ space, Text.isBlank c = true) ∧ ∀ c ∈ inside, c ∉ kind.barred)

namespace Declaration

variable {kind : DeclarationKind} {start stop : Cursor} {captures : Captures}

/-! ## Heads in the masked text -/

theorem name_goes_on (head : GenericHead) : ∀ c ∈ head.name, isNamePart c = true :=
  List.forall_mem_cons.mpr
    ⟨isNamePart_of_isNameStart head.first_starts, List.all_eq_true.mp head.rest_goes_on⟩

theorem isPlain_head (head : GenericHead) (following : Option Char) :
    IsPlain following head.chars := by
  have hkeyword : head.kind.keyword.toList.all (fun c => !isDelimiter c && c != '/') = true := by
    cases head.kind <;> decide
  have hopener : ['>', ' ', head.kind.opener].all (fun c => !isDelimiter c && c != '/') = true := by
    cases head.kind <;> decide
  have hclose : IsPlain following ['>', ' ', head.kind.opener] := .of_all hopener following
  have hliteral : ∀ c ∈ head.parameters, isDelimiter c = false := fun c hc =>
    (Bool.not_eq_true' _).mp (List.all_eq_true.mp head.no_literal c hc)
  have hlist : IsPlain (some '>') head.parameters :=
    .of_no_comment hliteral head.no_lineComment head.no_blockComment (by decide)
  have hback : IsPlain following (head.parameters ++ ['>', ' ', head.kind.opener]) :=
    .append hlist hclose
  have hopen := hback.cons (c := '<') (by decide)
  have hnamed := (IsPlain.of_isNamePart (name_goes_on head) _).append hopen
  exact (IsPlain.of_all hkeyword _).append (hnamed.cons (by decide))

/-- The masked form of a source text with a head in its code. -/
theorem maskChars_head {before after : List Char} (head : GenericHead)
    (hcode : Region.after none .code before = .code)
    (hlast : ∀ c, before.getLast? = some c → c ≠ '/' ∧ c ≠ '*') :
    maskChars (before ++ (head.chars ++ after)) =
      maskChars before ++ (head.chars ++ maskChars after) := by
  obtain ⟨hmask, hafter⟩ := maskUntil_eq_maskChars hlast (head.chars ++ after).head?
  obtain ⟨hhead, hbehind⟩ := isPlain_head head after.head?
  rw [maskChars, maskFrom_append, hafter, hcode, hmask, maskFrom_append, hhead, hbehind]
  rfl

/-- The last character of a text is shown if the code goes on behind it. -/
theorem getLast?_maskChars {before : List Char} {c : Char}
    (hcode : Region.after none .code before = .code) (hlast : before.getLast? = some c)
    (hc : c = '\n' ∨ isDelimiter c = false ∧ c ≠ '/') :
    (maskChars before).getLast? = some c := by
  rcases List.eq_nil_or_concat' before with rfl | ⟨first, d, rfl⟩
  · cases hlast
  rw [List.getLast?_concat] at hlast
  obtain rfl := Option.some.inj hlast
  rw [maskChars, ← maskUntil_none, maskUntil_concat]
  by_cases hline : d = '\n'
  · subst hline
    simp [blank]
  · obtain ⟨hdelimiter, hslash⟩ := hc.resolve_left hline
    rw [Region.after_concat] at hcode
    have hregion := Region.eq_code_of_next hdelimiter ⟨hslash, hline⟩ hcode
    rw [hregion, (Region.code_next_plain hdelimiter fun h => (hslash h).elim).2, if_pos rfl,
      List.getLast?_concat]

/-! ## Heads that are cut -/

/-- The first letter of a keyword stands nowhere else in the head but in names and parameters. -/
theorem exists_keyword_eq_cons (h : kind ≠ .enum) :
    ∃ k rest, kind.keyword.toList = k :: rest ∧ Text.isBlank k = false ∧
      Text.isWordChar k = true ∧ k ≠ '<' ∧ k ≠ '>' ∧ ∀ closing ∈ closings kind, k ∉ closing := by
  cases kind with
  | interface => exact ⟨'i', _, rfl, by decide +kernel⟩
  | typeAlias => exact ⟨'t', _, rfl, by decide +kernel⟩
  | enum => exact (h rfl).elim

theorem eq_append_of_cut {keyword gap name ahead rest : List Char} {c k : Char}
    (h : keyword ++ (gap ++ name) = ahead ++ k :: rest) (hlast : ahead.getLast? = some c)
    (hkeyword : c ∉ keyword) (hname : c ∉ name) (hgap : k ∉ gap) : ahead = keyword ++ gap := by
  have hc := List.mem_of_getLast? hlast
  rw [← List.append_assoc] at h
  rcases List.append_eq_append_iff.mp h with ⟨more, hahead, hmore⟩ | ⟨more, hfront, hmore⟩
  · rcases List.eq_nil_or_concat' more with rfl | ⟨more, d, rfl⟩
    · rw [hahead, List.append_nil]
    · rw [hahead, ← List.append_assoc, List.getLast?_concat] at hlast
      obtain rfl := Option.some.inj hlast
      exact (hname (by rw [hmore]; simp)).elim
  · cases more with
    | nil => rw [hfront, List.append_nil]
    | cons d more =>
        obtain ⟨rfl, -⟩ := List.cons.inj hmore
        obtain ⟨more, rfl, -⟩ := exists_of_append_eq_append_cons hgap hfront
        exact (hkeyword (List.mem_append_left _ hc)).elim

/-- The first letter of its keyword stands in the keyword or the name of a head, or in its type
parameters. -/
theorem Parts.cut_cases (parts : Parts kind start captures stop) (hkind : kind ≠ .enum)
    {ahead behind keyword : List Char} {k : Char}
    (hreads : start.Reads (ahead ++ k :: behind) stop)
    (hkeyword : kind.keyword.toList = k :: keyword) :
    (∃ rest, kind.keyword.toList ++ (parts.gap ++ parts.name) = ahead ++ k :: rest) ∨
      ∃ rest, (∀ c ∈ rest, c ∉ kind.barred) ∧ ahead =
        kind.keyword.toList ++ (parts.gap ++ (parts.name ++ (parts.space ++ '<' :: rest))) := by
  obtain ⟨k', keyword', heq, hblank, -, hopen, hclose, hclosing⟩ := exists_keyword_eq_cons hkind
  obtain rfl : k = k' := (List.cons.inj (hkeyword.symm.trans heq)).1
  have hspace : k ∉ parts.space := fun hmem => by
    rw [parts.space_blank k hmem] at hblank
    cases hblank
  have hwhole : (kind.keyword.toList ++ (parts.gap ++ (parts.name ++
      (parts.space ++ parts.list)))) ++ parts.closing = ahead ++ k :: behind := by
    simpa using
      ((parts.reads_keyword.append parts.reads_name).append parts.reads_list).unique hreads
  obtain ⟨more, hwhole, -⟩ := exists_of_append_eq_append_cons (hclosing _ parts.closing_mem) hwhole
  rcases parts.list_eq with hlist | ⟨inside, trail, hlist, hinside, htrail⟩
  · rw [hlist, List.append_nil, ← List.append_assoc parts.gap, ← List.append_assoc] at hwhole
    obtain ⟨rest, hcut, -⟩ := exists_of_append_eq_append_cons hspace hwhole
    exact .inl ⟨rest, hcut⟩
  · have hktrail : k ∉ '>' :: trail := fun hmem => by
      rcases List.mem_cons.mp hmem with heq | hmem
      · exact hclose heq
      · rw [htrail k hmem] at hblank
        cases hblank
    have hlisted : (kind.keyword.toList ++ (parts.gap ++ (parts.name ++
        (parts.space ++ '<' :: inside)))) ++ '>' :: trail = ahead ++ k :: more := by
      rw [← hwhole, hlist]
      simp
    obtain ⟨more, hinner, -⟩ := exists_of_append_eq_append_cons hktrail hlisted
    -- the cut is behind the opening bracket or before it
    have hopened : ((kind.keyword.toList ++ (parts.gap ++ parts.name)) ++ (parts.space ++ ['<'])) ++
        inside = ahead ++ k :: more := by
      rw [← hinner]
      simp
    rcases List.append_eq_append_iff.mp hopened with ⟨rest, hahead, hrest⟩ | ⟨rest, hfront, hrest⟩
    · refine .inr ⟨rest, fun c hc => hinside c ?_, by rw [hahead]; simp⟩
      rw [hrest]
      exact List.mem_append_left _ hc
    · cases rest with
      | nil => exact .inr ⟨[], by simp, by rw [← List.append_nil ahead, ← hfront]; simp⟩
      | cons d rest =>
          obtain ⟨rfl, -⟩ := List.cons.inj hrest
          have hbracket : k ∉ parts.space ++ ['<'] := by simp [hspace, hopen]
          obtain ⟨rest, hcut, -⟩ := exists_of_append_eq_append_cons hbracket hfront
          exact .inl ⟨rest, hcut⟩

/-- If a head is cut between a line feed or a semicolon and the first letter of its keyword, then
the text in front of the cut ends in the head. -/
theorem Parts.endsInHead_of_cut (parts : Parts kind start captures stop) (hkind : kind ≠ .enum)
    {lead ahead behind keyword : List Char} {c k : Char} (hbefore : start.before = lead.getLast?)
    (hreads : start.Reads (ahead ++ k :: behind) stop) (hlast : ahead.getLast? = some c)
    (hc : c = '\n' ∨ c = ';') (hkeyword : kind.keyword.toList = k :: keyword) :
    EndsInHead kind (lead ++ ahead) := by
  obtain ⟨k', keyword', heq, hblank, hword, -, -, -⟩ := exists_keyword_eq_cons hkind
  obtain rfl : k = k' := (List.cons.inj (hkeyword.symm.trans heq)).1
  have hlead : lead.getLast?.any Text.isWordChar = false := by
    have hnext : start.precedes Text.isWordChar = true := by
      rw [Cursor.precedes, parts.reads_keyword.rest_eq, hkeyword]
      exact hword
    rw [← hbefore, ← Bool.not_eq_true', ← Cursor.isAtWordBoundary_of_precedes hnext]
    exact parts.isBoundary
  rcases parts.cut_cases hkind hreads hkeyword with ⟨rest, hcut⟩ | ⟨rest, hrest, hahead⟩
  · have hckeyword : c ∉ kind.keyword.toList := by
      rcases hc with rfl | rfl <;> cases kind <;> decide
    have hcname : c ∉ parts.name := fun hmem => by
      have hpart := parts.name_goes_on c hmem
      rcases hc with rfl | rfl <;> revert hpart <;> decide +kernel
    have hgap : k ∉ parts.gap := fun hmem => by
      rw [parts.gap_blank k hmem] at hblank
      cases hblank
    rw [eq_append_of_cut hcut hlast hckeyword hcname hgap]
    exact ⟨lead, parts.gap, [], by simp, hlead, parts.gap_ne_nil, parts.gap_blank, .inl rfl⟩
  · exact ⟨lead, parts.gap, _, by rw [hahead], hlead, parts.gap_ne_nil, parts.gap_blank,
      .inr ⟨parts.name, parts.space, rest, rfl, parts.name_starts, parts.name_goes_on,
        parts.space_blank, hrest⟩⟩

/-- A text that ends with a semicolon does not end in a head. -/
theorem getLast?_ne_of_endsInHead {text : List Char} (hkind : kind ≠ .enum)
    (h : EndsInHead kind text) : text.getLast? ≠ some ';' := by
  obtain ⟨lead, gap, tail, rfl, -, hgap, hblank, htail⟩ := h
  intro hlast
  rcases htail with rfl | ⟨name, space, inside, rfl, -, -, -, hinside⟩
  · obtain ⟨gap, c, rfl⟩ := (List.eq_nil_or_concat' gap).resolve_left hgap
    have hc := hblank c (by simp)
    rw [List.append_nil, ← List.append_assoc, ← List.append_assoc, List.getLast?_concat] at hlast
    rw [Option.some.inj hlast] at hc
    revert hc
    decide
  · rcases List.eq_nil_or_concat' inside with rfl | ⟨inside, c, rfl⟩
    · simp [List.getLast?_append] at hlast
    · have hc := hinside c (by simp)
      simp only [← List.append_assoc, ← List.cons_append, List.getLast?_concat] at hlast
      rw [Option.some.inj hlast] at hc
      cases kind with
      | interface | typeAlias => exact hc (by decide)
      | enum => exact hkind rfl

/-! ## The match of a head -/

/-- At a head without barred parameters its form has a match that remembers the name. -/
theorem exists_matchAt?_head (head : GenericHead) (before rest : List Char)
    (hplain : ∀ c ∈ head.parameters, c ∉ head.kind.barred)
    (hbefore : before.getLast?.any Text.isWordChar = false) :
    ∃ found, (genericForm head.kind).matchAt? (between before (head.chars ++ rest)) = some found ∧
      found.text "name" = String.ofList head.name := by
  obtain ⟨k, keyword, hkeyword, -, hword, -⟩ := exists_keyword_eq_cons head.kind_ne_enum
  let list := '<' :: (head.parameters ++ '>' :: ' ' :: head.kind.opener :: rest)
  have hchars : head.chars ++ rest =
      head.kind.keyword.toList ++ ([' '] ++ (head.name ++ list)) := by
    simp [GenericHead.chars, list]
  have hboundary : (between before (head.chars ++ rest)).isAtWordBoundary = true := by
    have hnext : (between before (head.chars ++ rest)).precedes Text.isWordChar = true := by
      rw [hchars, hkeyword]
      exact hword
    rw [Cursor.isAtWordBoundary_of_precedes hnext, between, hbefore]
    rfl
  have hkeywordReads :=
    Cursor.reads_between before head.kind.keyword.toList ([' '] ++ (head.name ++ list))
  have hgap := Cursor.reads_between (before ++ head.kind.keyword.toList) [' '] (head.name ++ list)
  have hname :=
    Cursor.reads_between ((before ++ head.kind.keyword.toList) ++ [' ']) head.name list
  obtain ⟨captures, stop, hbehind⟩ := exists_accepts_behind_name
    (((before ++ head.kind.keyword.toList) ++ [' ']) ++ head.name) rest hplain
  rw [← hchars] at hkeywordReads
  obtain ⟨stop, hmatch⟩ := exists_matchAt?_of_reads hboundary hkeywordReads hgap hname
    head.first_starts (List.all_eq_true.mp head.rest_goes_on)
    (show isNamePart '<' = false by decide +kernel) hbehind
  refine ⟨_, hmatch, ?_⟩
  exact congrArg String.ofList (Span.chars_eq_of_reads hname)

/-- No match of the form of a head begins before the head and reaches into it. -/
theorem start_eq_of_mem_findAll (head : GenericHead) {before rest : List Char} {found : Match}
    (hbegins : ∀ c, before.getLast? = some c →
      c = ';' ∨ c = '\n' ∧ ¬EndsInHead head.kind before)
    (hfound : found ∈ (genericForm head.kind).findAll (before ++ (head.chars ++ rest)))
    (hle : found.whole.start.offset ≤ Text.byteSize before)
    (hlt : Text.byteSize before < found.whole.stop.offset) :
    found.whole.start = between before (head.chars ++ rest) := by
  obtain ⟨hstart, haccepts⟩ := accepts_of_mem_findAll hfound
  obtain ⟨piece, hpiece⟩ := haccepts.exists_reads
  obtain ⟨lead, ahead, d, behind, hbefore, hbetween, hahead, hbehind⟩ :=
    Cursor.exists_cut hstart (Cursor.mem_places_of_reads hstart hpiece) hle hlt
  rcases List.eq_nil_or_concat' ahead with rfl | ⟨ahead, c, rfl⟩
  · rw [hbetween, hbefore, List.append_nil, List.nil_append]
  · exfalso
    obtain ⟨parts⟩ := exists_parts haccepts
    obtain ⟨k, keyword, hkeyword, -⟩ := exists_keyword_eq_cons head.kind_ne_enum
    have hfirst : head.chars ++ rest = d :: (behind ++ found.whole.stop.rest) := hbehind.rest_eq
    rw [GenericHead.chars, hkeyword] at hfirst
    obtain rfl : k = d := (List.cons.inj hfirst).1
    have hc := hbegins c (by rw [hbefore, ← List.append_assoc, List.getLast?_concat])
    have hends : EndsInHead head.kind before := by
      rw [hbefore]
      exact parts.endsInHead_of_cut head.kind_ne_enum (by rw [hbetween]; rfl)
        (hahead.append hbehind) List.getLast?_concat (hc.symm.imp_left And.left) hkeyword
    rcases hc with rfl | hline
    · apply getLast?_ne_of_endsInHead head.kind_ne_enum hends
      rw [hbefore, ← List.append_assoc, List.getLast?_concat]
    · exact hline.2 hends

/-- Behind the name of a head the parts of a match have its parameters. -/
theorem Parts.exists_inside (head : GenericHead) {rest : List Char}
    (parts : Parts head.kind start captures stop) (hstart : start.rest = head.chars ++ rest)
    (hname : parts.name = head.name) :
    ∃ inside trail, (∀ c ∈ inside, c ∉ head.kind.barred) ∧
      head.parameters ++ '>' :: ' ' :: head.kind.opener :: rest = inside ++ '>' :: trail := by
  have hclosing : ∀ closing ∈ closings head.kind, closing ≠ [] ∧ '<' ∉ closing := by
    cases head.kind <;> decide
  have hwhole : ' ' :: (head.name ++
      '<' :: (head.parameters ++ '>' :: ' ' :: head.kind.opener :: rest)) =
        parts.gap ++ (head.name ++ (parts.space ++ (parts.list ++ (parts.closing ++ stop.rest)))) := by
    have hreads := (parts.reads_keyword.append parts.reads_name).append parts.reads_list
    have hrest := hstart.symm.trans hreads.rest_eq
    rw [GenericHead.chars, hname] at hrest
    simpa using hrest
  obtain ⟨d, gap, hgap⟩ := List.exists_cons_of_ne_nil parts.gap_ne_nil
  rw [hgap] at hwhole
  obtain ⟨-, hwhole⟩ := List.cons.inj hwhole
  obtain rfl : gap = [] := by
    cases gap with
    | nil => rfl
    | cons e gap =>
        obtain ⟨rfl, -⟩ := List.cons.inj hwhole
        have hblank := parts.gap_blank head.first (by simp [hgap])
        rw [(isDelimiter_eq_false_of_isNamePart (isNamePart_of_isNameStart head.first_starts)).2.2]
          at hblank
        cases hblank
  have hbehind := List.append_cancel_left hwhole
  have hspace : parts.space = [] := by
    cases hspace : parts.space with
    | nil => rfl
    | cons e space =>
        rw [hspace] at hbehind
        have hblank := parts.space_blank '<' (by
          rw [hspace, (List.cons.inj hbehind).1]
          exact List.mem_cons_self)
        have hopen : Text.isBlank '<' = false := by decide
        rw [hopen] at hblank
        cases hblank
  rw [hspace, List.nil_append] at hbehind
  rcases parts.list_eq with hlist | ⟨inside, trail, hlist, hinside, -⟩
  · obtain ⟨hne, hmem⟩ := hclosing _ parts.closing_mem
    obtain ⟨e, closing, heq⟩ := List.exists_cons_of_ne_nil hne
    rw [hlist, heq] at hbehind
    obtain ⟨rfl, -⟩ := List.cons.inj hbehind
    exact (hmem (by rw [heq]; exact List.mem_cons_self)).elim
  · rw [hlist] at hbehind
    exact ⟨inside, trail ++ (parts.closing ++ stop.rest), hinside,
      by simpa using (List.cons.inj hbehind).2⟩

/-- A list that holds a character of a class before it is closed has no part without one that is
closed. -/
theorem eq_false_of_barred {barred inside inside' more more' : List Char} {c : Char}
    (hclose : '>' ∉ barred) (hc : c ∈ barred) (hinside : '>' ∉ inside)
    (hinside' : ∀ d ∈ inside', d ∉ barred) (h : inside ++ c :: more = inside' ++ '>' :: more') :
    False := by
  rcases List.append_eq_append_iff.mp h with ⟨middle, hmiddle, htail⟩ | ⟨middle, hmiddle, htail⟩
  · cases middle with
    | nil => exact hclose ((List.cons.inj htail).1 ▸ hc)
    | cons d middle =>
        obtain ⟨rfl, -⟩ := List.cons.inj htail
        exact hinside' c (by rw [hmiddle]; simp) hc
  · cases middle with
    | nil => exact hclose ((List.cons.inj htail).1 ▸ hc)
    | cons d middle =>
        obtain ⟨rfl, -⟩ := List.cons.inj htail
        exact hinside (by rw [hmiddle]; simp)

/-! ## Found and missed -/

section

variable {before after : List Char} {source : String}

/-- A head in the code that has no barred parameters is found. -/
theorem mem_allIn_of_head (head : GenericHead)
    (hmasked : maskChars source.toList = before ++ (head.chars ++ after))
    (hbegins : ∀ c, before.getLast? = some c →
      c = ';' ∨ c = '\n' ∧ ¬EndsInHead head.kind before)
    (hplain : ∀ c ∈ head.parameters, c ∉ head.kind.barred) :
    ⟨head.kind, String.ofList head.name, Text.byteSize before,
      .ofOffset source.toList (Text.byteSize before)⟩ ∈ allIn source := by
  have hbefore (ok : Char → Bool) (hok : ok ';' = false ∧ ok '\n' = false) :
      before.getLast?.any ok = false := by
    cases hlast : before.getLast? with
    | none => rfl
    | some c =>
        rcases hbegins c hlast with rfl | ⟨rfl, -⟩
        · exact hok.1
        · exact hok.2
  obtain ⟨matched, hmatch, hname⟩ := exists_matchAt?_head head before after hplain
    (hbefore _ (by decide +kernel))
  obtain ⟨-, haccepts⟩ := accepts_of_matchAt? hmatch
  have hplace := Cursor.between_mem_places before (head.chars ++ after)
  obtain ⟨found, hfound, hinside⟩ := exists_mem_findAll_of_accepts hplace haccepts
  have hstart : found.whole.start = between before (head.chars ++ after) := by
    rcases hinside with h | ⟨hlt, hstop⟩
    · exact h
    · exact start_eq_of_mem_findAll head hbegins hfound (Nat.le_of_lt hlt) hstop
  obtain ⟨-, hfoundMatch⟩ := matchAt?_of_mem_findAll hfound
  rw [hstart, hmatch] at hfoundMatch
  obtain rfl := Option.some.inj hfoundMatch
  rw [← hmasked] at hfound
  refine mem_allIn_iff.mpr ⟨_, genericForm_mem_forms head.kind_ne_enum, _, hfound, ?_⟩
  rw [ofMatch?, hstart, between, hbefore isMemberMark (by decide), hname]
  rfl

/-- A head with a barred character before any parameter could be closed is not found. -/
theorem not_mem_allIn_of_barred (head : GenericHead)
    (hmasked : maskChars source.toList = before ++ (head.chars ++ after))
    {inside more : List Char} {c : Char} (hparameters : head.parameters = inside ++ c :: more)
    (hc : c ∈ head.kind.barred) (hinside : '>' ∉ inside) {declaration : Declaration}
    (hmem : declaration ∈ allIn source) :
    ¬(declaration.kind = head.kind ∧ declaration.name = String.ofList head.name ∧
      declaration.offset = Text.byteSize before) := by
  rintro ⟨hkind, hname, hoffset⟩
  obtain ⟨⟨kind, form⟩, hform, found, hfound, hdeclaration⟩ := mem_allIn_iff.mp hmem
  rw [ofMatch?] at hdeclaration
  split at hdeclaration
  next => cases hdeclaration
  next =>
    obtain rfl := Option.some.inj hdeclaration
    obtain rfl : kind = head.kind := hkind
    obtain rfl : form = genericForm head.kind := eq_genericForm hform head.kind_ne_enum
    obtain ⟨hstart, haccepts⟩ := accepts_of_mem_findAll hfound
    obtain ⟨parts⟩ := exists_parts haccepts
    have hpartsName : parts.name = head.name := by
      have hget : found.get? "name" = some ⟨parts.begins, parts.ends⟩ :=
        congrArg (List.lookup "name") parts.captures_eq
      have htext : String.ofList parts.name = String.ofList head.name := by
        rw [← hname, Match.text, hget]
        exact (congrArg String.ofList (Span.chars_eq_of_reads parts.reads_name)).symm
      exact String.ofList_injective htext
    rw [hmasked] at hstart
    have hrest : found.whole.start.rest = head.chars ++ after := by
      rw [Cursor.eq_between_of_mem_places hstart hoffset]
      rfl
    obtain ⟨inside', trail, hplain, hlist⟩ := parts.exists_inside head hrest hpartsName
    rw [hparameters, List.append_assoc] at hlist
    refine eq_false_of_barred ?_ hc hinside hplain hlist
    cases head.kind <;> decide

/-- A declaration with type parameters is found where its head stands in the code, at the beginning,
behind a semicolon, or behind a line feed that is not inside another head, if no character of its
parameters is barred. If one is, and no parameter could be closed before it, then the declaration is
missed. -/
theorem generic_found_unless_barred (before after : String) (head : GenericHead)
    (hcode : Region.after none .code before.toList = .code)
    (hbegins : ∀ c, before.toList.getLast? = some c →
      c = ';' ∨ c = '\n' ∧ ¬EndsInHead head.kind (maskChars before.toList)) :
    let source := before ++ String.ofList head.chars ++ after
    let offset := Text.byteSize before.toList
    ((∀ c ∈ head.parameters, c ∉ head.kind.barred) →
      ⟨head.kind, String.ofList head.name, offset, .ofOffset source.toList offset⟩ ∈
        allIn source) ∧
      ∀ inside c more, head.parameters = inside ++ c :: more → c ∈ head.kind.barred →
        '>' ∉ inside → ∀ declaration ∈ allIn source,
          ¬(declaration.kind = head.kind ∧ declaration.name = String.ofList head.name ∧
            declaration.offset = offset) := by
  intro source offset
  have hsource : source.toList = before.toList ++ (head.chars ++ after.toList) := by
    simp [source]
  have hmasked : maskChars source.toList =
      maskChars before.toList ++ (head.chars ++ maskChars after.toList) := by
    rw [hsource]
    apply maskChars_head head hcode
    intro c hlast
    rcases hbegins c hlast with rfl | ⟨rfl, -⟩ <;> decide
  have hoffset : Text.byteSize (maskChars before.toList) = offset := byteSize_maskFrom _ _
  constructor
  · intro hplain
    have hmem := mem_allIn_of_head head hmasked ?_ hplain
    · rwa [hoffset] at hmem
    · intro c hlast
      cases hbefore : before.toList.getLast? with
      | none =>
          rw [List.getLast?_eq_none_iff.mp hbefore] at hlast
          cases hlast
      | some d =>
          have hd := hbegins d hbefore
          have hseen := getLast?_maskChars hcode hbefore (by
            rcases hd with rfl | ⟨rfl, -⟩
            · exact .inr (by decide)
            · exact .inl rfl)
          obtain rfl : d = c := Option.some.inj (hseen.symm.trans hlast)
          exact hd
  · intro inside c more hparameters hc hinside declaration hmem
    rw [← hoffset]
    exact not_mem_allIn_of_barred head hmasked hparameters hc hinside hmem

end

/-- The head `interface Pair<A, B extends A[]>` with its brace. -/
def pairHead : GenericHead where
  kind := .interface
  first := 'P'
  rest := "air".toList
  parameters := "A, B extends A[]".toList
  kind_ne_enum := by decide
  first_starts := by decide +kernel
  rest_goes_on := by decide +kernel
  no_literal := by decide +kernel
  no_lineComment := by decide +kernel
  no_blockComment := by decide +kernel

/-- A generic interface on the second line is found there. -/
theorem pair_found :
    let before := "type Id = string;\n"
    let source := before ++ String.ofList pairHead.chars ++ " \x7d"
    Region.after none .code before.toList = .code ∧
      ¬EndsInHead .interface (maskChars before.toList) ∧
      (∀ c ∈ pairHead.parameters, c ∉ DeclarationKind.interface.barred) ∧
      source = "type Id = string;\ninterface Pair<A, B extends A[]> \x7b \x7d" ∧
      ⟨.interface, "Pair", 18, ⟨2, 1⟩⟩ ∈ allIn source := by
  intro before source
  have hcode : Region.after none .code before.toList = .code := by decide +kernel
  have hends : ¬EndsInHead .interface (maskChars before.toList) := by
    rintro ⟨lead, gap, tail, htext, -⟩
    have hkeyword : "interface".toList <:+: maskChars before.toList :=
      ⟨lead, gap ++ tail, by rw [htext, List.append_assoc]; rfl⟩
    revert hkeyword
    decide +kernel
  have hplain : ∀ c ∈ pairHead.parameters, c ∉ DeclarationKind.interface.barred := by
    have hall : pairHead.parameters.all (!DeclarationKind.interface.barred.contains ·) = true := by
      decide +kernel
    intro c hc
    simpa using List.all_eq_true.mp hall c hc
  have hbegins : ∀ c, before.toList.getLast? = some c →
      c = ';' ∨ c = '\n' ∧ ¬EndsInHead .interface (maskChars before.toList) := by
    have hlast : before.toList.getLast? = some '\n' := by decide +kernel
    intro c hc
    rw [hlast] at hc
    exact .inr ⟨(Option.some.inj hc).symm, hends⟩
  refine ⟨hcode, hends, hplain, by decide +kernel, ?_⟩
  have hmem := (generic_found_unless_barred before " \x7d" pairHead hcode hbegins).1 hplain
  have hposition : Text.Position.ofOffset source.toList (Text.byteSize before.toList) = ⟨2, 1⟩ := by
    decide +kernel
  have hoffset : Text.byteSize before.toList = 18 := by decide +kernel
  rw [hposition, hoffset] at hmem
  exact hmem

/-- The bracket that closes an opening one. -/
def closer? : Char → Option Char
  | '<' => some '>'
  | '(' => some ')'
  | '[' => some ']'
  | '\x7b' => some '\x7d'
  | _ => none

/-- Whether the brackets of a text are balanced if the given ones are still to be closed. -/
def isBalanced : List Char → List Char → Bool
  | opened, [] => opened.isEmpty
  | opened, c :: rest =>
      match closer? c with
      | some d => isBalanced (d :: opened) rest
      | none =>
          if ['>', ')', ']', '\x7d'].contains c then
            opened.head? == some c && isBalanced opened.tail rest
          else isBalanced opened rest

/-- The head `interface Box<T extends { id: string }>` with its brace. -/
def boxHead : GenericHead where
  kind := .interface
  first := 'B'
  rest := "ox".toList
  parameters := "T extends \x7b id: string \x7d".toList
  kind_ne_enum := by decide
  first_starts := by decide +kernel
  rest_goes_on := by decide +kernel
  no_literal := by decide +kernel
  no_lineComment := by decide +kernel
  no_blockComment := by decide +kernel

/-- A generic interface at the beginning of a text is missed for the sake of an object type,
although the brackets of its parameters are balanced. -/
theorem box_missed :
    let source := String.ofList boxHead.chars ++ " item: T \x7d"
    isBalanced [] boxHead.parameters = true ∧
      source = "interface Box<T extends \x7b id: string \x7d> \x7b item: T \x7d" ∧
      allIn source = [] := by
  decide +kernel

end Declaration

end LayerLint.Source
