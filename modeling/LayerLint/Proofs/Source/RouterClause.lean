import LayerLint.Proofs.Source.ClauseNames
import LayerLint.Proofs.Source.CodePiece
import LayerLint.Proofs.Source.WidenedReference

/-! # The clauses that names come from

A collected name is written in an import clause of the code, between the keyword and the literal.
The form of such a clause and the form in which references look for it differ: the one sets blanks
before its `from` apart, the other takes them as a part of what is bound. They describe the same
pieces of text all the same, so the literal of the clause is listed as an import.
-/

namespace LayerLint.Source

open Pattern
open Text (Cursor Span byteSize)
open Text.Cursor (between)

namespace RouterBindings

variable {start stop : Cursor} {captures : Captures}

/-! ## The parts of a clause -/

/-- What stands between the keyword of a clause and what it binds. -/
def IsClauseLead (lead : List Char) : Prop :=
  ∃ gap mark, IsGap gap ∧ lead = gap ++ mark ∧
    (mark = [] ∨ ∃ gap', IsGap gap' ∧ mark = "type".toList ++ gap')

/-- What stands between what a clause binds and its literal. -/
def IsClauseTrail (trail : List Char) : Prop :=
  ∃ gap gap', (∀ c ∈ gap, Text.isBlank c = true) ∧ (∀ c ∈ gap', Text.isBlank c = true) ∧
    trail = gap ++ ("from".toList ++ gap')

/-- A piece of text that the form of import clauses describes, part by part. -/
structure ClauseParts (start : Cursor) (captures : Captures) (stop : Cursor) where
  lead : List Char
  clause : List Char
  trail : List Char
  bindings : Span
  quoted : Cursor
  rest : Captures
  isLead : IsClauseLead lead
  clause_plain : ∀ c ∈ clause, Reference.isClauseChar c = true
  isTrail : IsClauseTrail trail
  reads_keyword : start.Reads ("import".toList ++ lead) bindings.start
  reads_clause : bindings.start.Reads clause bindings.stop
  reads_trail : bindings.stop.Reads trail quoted
  accepts_literal : Reference.literal.Accepts quoted rest stop
  /-- The piece is described by the form of references as well. -/
  accepts_reference : (Reference.clauseOf "import").Accepts start rest stop
  captures_eq : captures = ("bindings", bindings) :: rest

theorem exists_of_accepts_clauseLead
    (h : (all [boundary, word "import", someBlanks, Reference.typeWord]).Accepts
      start captures stop) :
    captures = [] ∧ ∃ lead, IsClauseLead lead ∧ start.Reads ("import".toList ++ lead) stop := by
  cases h with
  | andThen hboundary h =>
  cases hboundary
  cases h with
  | andThen hword h =>
  obtain ⟨rfl, hwordReads⟩ := hword.reads_of_word
  cases h with
  | andThen hgap h =>
  obtain ⟨rfl, gap, hne, hblank, hgapReads⟩ := Declaration.exists_of_accepts_someBlanks hgap
  obtain ⟨rfl, mark, hmarkReads, hmark⟩ :=
    Declaration.exists_of_accepts_maybe_word h.of_all_singleton
  exact ⟨rfl, gap ++ mark, ⟨gap, mark, ⟨hne, hblank⟩, rfl, hmark⟩,
    hwordReads.append (hgapReads.append hmarkReads)⟩

theorem exists_clauseParts (h : importClause.Accepts start captures stop) :
    Nonempty (ClauseParts start captures stop) := by
  have hsplit : (all ([boundary, word "import", someBlanks, Reference.typeWord] ++
      named "bindings" (short Reference.isClauseChar) ::
        [blanks, boundary, word "from", blanks, Reference.literal])).Accepts start captures stop :=
    h
  obtain ⟨begins, before, after, hbefore, hafter, rfl⟩ := hsplit.of_all_append
  obtain ⟨rfl, lead, hlead, hleadReads⟩ := exists_of_accepts_clauseLead hbefore
  cases hafter with
  | @andThen _ _ _ ends _ _ _ hnamed htail =>
  cases hnamed with
  | named hclause =>
  cases hclause with
  | @short _ _ _ clause hclauseReads hplain =>
  cases htail with
  | andThen hgap htail =>
  cases hgap with
  | @long _ _ _ gap hgapReads hblank =>
  -- the blanks before `from` belong to the characters of a clause
  have hmerged : ∀ c ∈ clause ++ gap, Reference.isClauseChar c = true := fun c hc =>
    (List.mem_append.mp hc).elim (hplain c) fun hc => isBlank_isClauseChar c (hblank c hc)
  have hreference : (all ([boundary, word "import", someBlanks, Reference.typeWord] ++
      short Reference.isClauseChar ::
        [boundary, word "from", blanks, Reference.literal])).Accepts start ([] ++ _) stop :=
    hbefore.all_append (.andThen (.short (hclauseReads.append hgapReads) hmerged) htail)
  cases htail with
  | andThen hboundary htail =>
  cases hboundary
  cases htail with
  | andThen hfrom htail =>
  obtain ⟨rfl, hfromReads⟩ := hfrom.reads_of_word
  cases htail with
  | @andThen _ _ _ quoted _ _ _ hgap' htail =>
  cases hgap' with
  | @long _ _ _ gap' hgapReads' hblank' =>
  exact ⟨{
    lead := lead
    clause := clause
    trail := gap ++ ("from".toList ++ gap')
    bindings := ⟨begins, ends⟩
    quoted := quoted
    rest := _
    isLead := hlead
    clause_plain := hplain
    isTrail := ⟨gap, gap', hblank, hblank', rfl⟩
    reads_keyword := hleadReads
    reads_clause := hclauseReads
    reads_trail := hgapReads.append (hfromReads.append hgapReads')
    accepts_literal := htail.of_all_singleton
    accepts_reference := hreference
    captures_eq := rfl }⟩

/-! ## The literal of a clause -/

/-- The literal of an import clause in the code is listed as an import, unless it is empty. -/
theorem mem_allIn_of_accepts {source : String} {opening closing : Cursor}
    (hstart : start ∈ Cursor.places (maskChars source.toList))
    (h : (Reference.clauseOf "import").Accepts start [("specifier", ⟨opening, closing⟩)] stop)
    (literal : Literal source.toList) (hopening : opening.offset = literal.offset)
    (hclosing : closing.offset = literal.offset + byteSize literal.inside)
    (hinside : literal.inside ≠ []) :
    ⟨String.ofList literal.inside, literal.offset, .staticImport⟩ ∈ Reference.allIn source := by
  let listed : Reference := ⟨String.ofList literal.inside, literal.offset, .staticImport⟩
  have hform : (ReferenceKind.staticImport, Reference.clauseOf "import") ∈ Reference.forms :=
    List.mem_cons_self
  obtain ⟨found, hfound, hcaptures⟩ := Reference.exists_mem_findAll_of_form hform hstart h
  have hmatch : Reference.ofMatch? source.toList .staticImport found = some listed := by
    rw [Reference.ofMatch?_of_literal literal hcaptures hopening hclosing, if_neg hinside]
  have hmem := Reference.mem_byForm_iff.mpr ⟨_, hform, found, hfound, hmatch⟩
  obtain ⟨kept, hkept, hoffset⟩ := Reference.exists_mem_allInMasked hmem
  obtain ⟨hbyForm, hleast⟩ := Reference.least_of_mem_allInMasked hkept
  -- no form comes before that of imports, and there is one literal at the offset
  have hkind : kept.kind = .staticImport :=
    Reference.eq_of_rank_eq (Nat.le_zero.mp (hleast listed hmem hoffset.symm))
  obtain ⟨other, hother, hspecifier, -⟩ := Reference.exists_literal_of_mem_byForm hbyForm
  have hsame := other.inside_eq_of_offset_eq literal (hother.symm.trans hoffset)
  obtain ⟨specifier, offset, kind⟩ := kept
  dsimp only at hkind hoffset hspecifier
  rwa [hkind, hspecifier, hsame, hoffset] at hkept

end RouterBindings

open RouterBindings

/-- An import clause in the code of a source text that names a router module. -/
structure RouterClause (source : String) (routers : GlobSet) where
  offset : Nat
  keyword : CodePiece source.toList offset "import".toList
  lead : List Char
  /-- What the clause binds, as it is seen. -/
  bindings : List Char
  trail : List Char
  literal : Literal source.toList
  isLead : IsClauseLead lead
  bindings_plain : ∀ c ∈ bindings, Reference.isClauseChar c = true
  isTrail : IsClauseTrail trail
  seen_eq : maskUntil (some literal.quote) .code literal.before =
    keyword.seenBefore ++ ("import".toList ++ (lead ++ (bindings ++ trail)))
  isRouter : routers.isMatch (Text.trim (String.ofList literal.inside)) = true
  isListed : literal.inside ≠ [] →
    ⟨String.ofList literal.inside, literal.offset, .staticImport⟩ ∈ Reference.allIn source

namespace RouterClause

variable {source : String} {routers : GlobSet}

/-- The name is written in the code, among what the clause binds. -/
def Writes (clause : RouterClause source routers) (name : List Char) : Prop :=
  ∃ front back offset, ∃ code : CodePiece source.toList offset name,
    clause.bindings = front ++ (name ++ back) ∧
      code.seenBefore = clause.keyword.seenBefore ++ ("import".toList ++ (clause.lead ++ front))

theorem writes_of_isInfix (clause : RouterClause source routers) {name : List Char}
    (hpart : name <:+: clause.bindings) (hne : name ≠ [])
    (hname : ∀ c ∈ name, isNamePart c = true) : clause.Writes name := by
  obtain ⟨front, back, hbindings⟩ := hpart
  have hseen : maskChars source.toList =
      (clause.keyword.seenBefore ++ ("import".toList ++ (clause.lead ++ front))) ++
        (name ++ (back ++ (clause.trail ++ clause.literal.seenFrom))) := by
    rw [clause.literal.maskChars_eq, clause.seen_eq, ← hbindings]
    simp
  obtain ⟨code, hcode, -⟩ := exists_codePiece hseen hne hname
  exact ⟨front, back, _, code, by rw [← hbindings, List.append_assoc], hcode⟩

/-! ## From a name to its clause -/

theorem specifierOf_eq {source : List Char} {found : Match} {opening closing : Cursor}
    (hget : found.get? "specifier" = some ⟨opening, closing⟩) (literal : Literal source)
    (hopening : opening.offset = literal.offset)
    (hclosing : closing.offset = literal.offset + byteSize literal.inside) :
    specifierOf source found = Text.trim (String.ofList literal.inside) := by
  rw [specifierOf, hget, Text.trim, String.toList_ofList]
  simp only [hopening, hclosing, literal.slice?_offset, Option.getD_some]

/-- What is seen in front of a literal that a clause in the masked text ends with. -/
theorem maskUntil_before_eq {source seen piece rest : List Char} {quote : Char}
    (literal : Literal source) (hmasked : maskChars source = seen ++ (piece ++ quote :: rest))
    (hquote : quote = '\'' ∨ quote = '"')
    (hoffset : literal.offset = byteSize (seen ++ (piece ++ [quote]))) :
    maskUntil (some literal.quote) .code literal.before = seen ++ piece := by
  have hsize (quote : Char) (h : quote = '\'' ∨ quote = '"') : quote.utf8Size = 1 := by
    rcases h with rfl | rfl <;> decide
  rw [literal.maskChars_eq, ← List.append_assoc] at hmasked
  apply Text.eq_of_append_eq_append hmasked
  simp only [Literal.offset, Text.byteSize_append, Text.byteSize_cons, Text.byteSize_nil,
    hsize _ hquote, hsize _ literal.isQuote] at hoffset
  simp only [byteSize_maskUntil, Text.byteSize_append]
  omega

/-- The literal that a clause ends with, with what is seen in front of it. -/
theorem exists_literal {source seen rest : List Char} {captures : Captures} {stop : Cursor}
    (parts : ClauseParts (between seen rest) captures stop)
    (hmasked : maskChars source = seen ++ rest) :
    ∃ (literal : Literal source) (opening closing : Cursor),
      parts.rest = [("specifier", ⟨opening, closing⟩)] ∧ opening.offset = literal.offset ∧
      closing.offset = literal.offset + byteSize literal.inside ∧
      maskUntil (some literal.quote) .code literal.before =
        seen ++ ("import".toList ++ (parts.lead ++ (parts.clause ++ parts.trail))) := by
  have hplace : between seen rest ∈ Cursor.places (maskChars source) := by
    rw [hmasked]
    exact Cursor.between_mem_places _ _
  obtain ⟨quote, inside, opening, closing, hquote, -, hopen, -, -, hrest⟩ :=
    Reference.exists_of_accepts_literal parts.accepts_literal
  have hreference := parts.accepts_reference
  rw [hrest] at hreference
  have himport : "import".toList = 'i' :: "mport".toList := by decide
  obtain ⟨quotation⟩ :=
    Reference.quotation_of_accepts_clauseOf himport (by decide) (by decide) hreference
  obtain ⟨literal, hopening, hclosing, -, -⟩ := quotation.exists_literal hplace
  obtain ⟨hsame, hsame'⟩ : quotation.opening = opening ∧ quotation.closing = closing := by
    simpa [eq_comm] using quotation.captures_eq
  rw [hsame] at hopening
  rw [hsame'] at hclosing
  refine ⟨literal, opening, closing, hrest, hopening, hclosing, ?_⟩
  have hreads := (parts.reads_keyword.append parts.reads_clause).append
    (parts.reads_trail.append hopen)
  have hpiece : maskChars source = seen ++ (("import".toList ++ (parts.lead ++
      (parts.clause ++ parts.trail))) ++ quote :: opening.rest) :=
    hmasked.trans (congrArg (seen ++ ·) (hreads.rest_eq.trans (by simp)))
  refine maskUntil_before_eq literal hpiece hquote ?_
  rw [← hopening, hreads.offset_eq]
  simp only [between, Text.byteSize_append]
  omega

theorem exists_of_mem_findAll {found : Match}
    (hfound : found ∈ importClause.findAll (maskChars source.toList))
    (hrouter : routers.isMatch (specifierOf source.toList found) = true) :
    ∃ clause : RouterClause source routers,
      (found.text "bindings").toList = clause.bindings := by
  obtain ⟨hplace, haccepts⟩ := accepts_of_mem_findAll hfound
  obtain ⟨seen, rest, hmasked, hstart⟩ := Cursor.exists_eq_between hplace
  rw [hstart] at hplace haccepts
  obtain ⟨parts⟩ := exists_clauseParts haccepts
  obtain ⟨literal, opening, closing, hcaptures, hopening, hclosing, hbefore⟩ :=
    exists_literal parts hmasked
  have hreference := parts.accepts_reference
  rw [hcaptures] at hreference
  have hget : found.get? "specifier" = some ⟨opening, closing⟩ := by
    rw [Match.get?, parts.captures_eq, hcaptures]
    rfl
  have hkeyword : ∀ c ∈ "import".toList, isNamePart c = true := by
    rw [← List.all_eq_true]
    decide +kernel
  rw [show rest = _ from parts.reads_keyword.rest_eq, List.append_assoc] at hmasked
  obtain ⟨keyword, hseen, -⟩ := exists_codePiece hmasked (by decide) hkeyword
  refine ⟨{
    offset := byteSize seen
    keyword := keyword
    lead := parts.lead
    bindings := parts.clause
    trail := parts.trail
    literal := literal
    isLead := parts.isLead
    bindings_plain := parts.clause_plain
    isTrail := parts.isTrail
    seen_eq := by rw [hbefore, hseen]
    isRouter := by rwa [← specifierOf_eq hget literal hopening hclosing]
    isListed := mem_allIn_of_accepts hplace hreference literal hopening hclosing }, ?_⟩
  exact Match.toList_text (congrArg (List.lookup "bindings") parts.captures_eq) parts.reads_clause

/-- A bound name comes from a clause of a router module. -/
theorem exists_of_isBound {names : List Char → List String} {name : String}
    (h : IsBound source.toList (maskChars source.toList) routers names name) :
    ∃ clause : RouterClause source routers, name ∈ names clause.bindings := by
  obtain ⟨found, hfound, hrouter, hname⟩ := h
  obtain ⟨clause, hbindings⟩ := exists_of_mem_findAll hfound hrouter
  exact ⟨clause, hbindings ▸ hname⟩

/-- A collected hook is written in a clause of a router module that binds it. -/
theorem exists_of_mem_hooks {hook : String}
    (h : hook ∈ (collect source.toList (maskChars source.toList) routers).hooks) :
    ∃ clause : RouterClause source routers,
      hook ∈ hookNames clause.bindings ∧ clause.Writes hook.toList := by
  obtain ⟨clause, hhook⟩ := exists_of_isBound ((isBound_of_collect _ _ _).1 hook h)
  obtain ⟨rest, heq, hplain⟩ := exists_of_isHookName (holdsHooks_collect _ _ _ hook h)
  rw [← heq] at hplain
  refine ⟨clause, hhook, clause.writes_of_isInfix (isInfix_of_mem_hookNames hhook) ?_ ?_⟩
  · rw [heq]
    exact List.cons_ne_nil _ _
  · exact fun c hc => isNamePart_of_isNameChar (hplain c hc)

/-- A collected name of a whole module is written in a clause of a router module that binds it. -/
theorem exists_of_mem_namespaces {space : String}
    (h : space ∈ (collect source.toList (maskChars source.toList) routers).namespaces) :
    ∃ clause : RouterClause source routers,
      space ∈ spaceNames clause.bindings ∧ clause.Writes space.toList := by
  obtain ⟨clause, hspace⟩ := exists_of_isBound ((isBound_of_collect _ _ _).2 space h)
  obtain ⟨hpart, hne, hplain⟩ := isIdentifier_of_mem_spaceNames hspace
  exact ⟨clause, hspace, clause.writes_of_isInfix hpart hne fun c hc =>
    isNamePart_of_isNameChar (hplain c hc)⟩

end RouterClause

end LayerLint.Source
