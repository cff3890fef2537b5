import LayerLint.Proofs.Source.HookCall
import LayerLint.Proofs.Source.RouterClause

/-! # Why calls are listed

Every call that is listed has its reasons in the source: the name of a hook stands alone in the code
and is called, it is bound itself or reached through a name that is bound to a module, and what is
bound is written in an import clause of a router module.
-/

namespace LayerLint.Source

open Pattern RouterBindings
open Text (Cursor Span byteSize)
open Text.Cursor (between)

/-- What is seen in front of a member of a module: a name in the code, and a dot that blanks may
surround. -/
def IsMemberLead (source : List Char) (space : String) (seen : List Char) : Prop :=
  ∃ offset, ∃ code : CodePiece source offset space.toList, ∃ gap gap',
    (∀ c ∈ gap, Text.isBlank c = true) ∧ (∀ c ∈ gap', Text.isBlank c = true) ∧
      seen = code.seenBefore ++ (space.toList ++ (gap ++ '.' :: gap'))

/-- A call of a router hook in the code of a source text, given what the source binds. -/
structure JustifiedCall (source : List Char) (bindings : RouterBindings) (call : HookCall) where
  named : CodePiece source call.offset call.name.toList
  isHook : isHookName call.name = true
  name_starts : call.name.toList.head?.any isNameStart = true
  name_goes_on : ∀ c ∈ call.name.toList, isNameChar c = true
  not_inside : named.before.getLast?.any isNamePart = false
  not_cut : named.after.head?.any isNamePart = false
  opens : OpensCall named.seenAfter
  /-- The name is bound, or a name in front of it is bound to a module. -/
  isBound : (call.name ∈ bindings.hooks ∧ named.before.getLast?.any isMemberMark = false) ∨
    ∃ space ∈ bindings.namespaces, IsMemberLead source space named.seenBefore

namespace HookCall

variable {source seen rest : List Char} {bindings : RouterBindings} {call : HookCall}
  {found : Match}

/-! ## One call -/

/-- The name of a hook that is seen alone and called is a justified call, if it is bound. -/
theorem exists_justifiedCall (hhook : isHookName call.name = true)
    (hmasked : maskChars source = seen ++ (call.name.toList ++ rest))
    (hoffset : call.offset = byteSize seen) (hopens : OpensCall rest)
    (halone : seen.getLast?.any isNamePart = false)
    (hbound : (call.name ∈ bindings.hooks ∧ seen.getLast?.any isMemberMark = false) ∨
      ∃ space ∈ bindings.namespaces, IsMemberLead source space seen) :
    Nonempty (JustifiedCall source bindings call) := by
  obtain ⟨tail, hname, hplain⟩ := exists_of_isHookName hhook
  rw [← hname] at hplain
  obtain ⟨named, hseen, hafter⟩ : ∃ named : CodePiece source call.offset call.name.toList,
      named.seenBefore = seen ∧ named.seenAfter = rest := by
    rw [hoffset]
    refine exists_codePiece hmasked ?_ fun c hc => isNamePart_of_isNameChar (hplain c hc)
    rw [hname]
    exact List.cons_ne_nil _ _
  have hcut : named.seenAfter.head?.any isNamePart = false := by
    obtain ⟨c, after, heq, hc⟩ := exists_cons_of_opensCall hopens
    rw [hafter, heq]
    exact isNamePart_eq_false_of_isOpeningChar hc
  exact ⟨{
    named := named
    isHook := hhook
    name_starts := by
      rw [hname]
      rfl
    name_goes_on := hplain
    not_inside := named.getLast?_any_before (by decide +kernel) (by rwa [hseen])
    not_cut := named.head?_any_after (by decide +kernel) hcut
    opens := by rwa [hafter]
    isBound := hbound.imp
      (fun ⟨hmem, hmark⟩ => ⟨hmem, named.getLast?_any_before (by decide) (by rwa [hseen])⟩)
      (fun ⟨space, hspace, hlead⟩ => ⟨space, hspace, by rwa [hseen]⟩) }⟩

/-- The text of a span that an identifier is read from is that identifier. -/
theorem exists_text_of_accepts {start middle : Cursor} (h : identifier.Accepts start [] middle) :
    ∃ name : String, Span.text ⟨start, middle⟩ = name ∧ name.toList ≠ [] ∧
      (∀ c ∈ name.toList, isNameChar c = true) ∧ start.Reads name.toList middle := by
  obtain ⟨-, name, hne, hplain, hreads⟩ := exists_of_accepts_identifier h
  refine ⟨String.ofList name, ?_, ?_⟩
  · rw [Span.text, Span.chars_eq_of_reads hreads]
  · rw [String.toList_ofList]
    exact ⟨hne, hplain, hreads⟩

/-- In front of a word that begins at a boundary stands no part of a name, unless it is a dollar
sign. -/
theorem not_inside_of_boundary {c : Char} (hc : Text.isWordChar c = true)
    (hboundary : (between seen (c :: rest)).isAtWordBoundary = true)
    (hmark : seen.getLast?.any isMemberMark = false) : seen.getLast?.any isNamePart = false := by
  cases hlast : seen.getLast? with
  | none => rfl
  | some d =>
      rw [hlast, Option.any_some, isMemberMark, Bool.or_eq_false_iff] at hmark
      have hnext : (between seen (c :: rest)).precedes Text.isWordChar = true := hc
      rw [Cursor.isAtWordBoundary_of_precedes hnext, between, hlast, Bool.not_eq_true'] at hboundary
      exact Bool.or_eq_false_iff.mpr ⟨hboundary, hmark.2⟩

theorem exists_justifiedCall_of_direct (hholds : bindings.HoldsHooks)
    (hfound : found ∈ direct.findAll (maskChars source))
    (hdirect : isDirectCall bindings found = true) (hcall : ofMatch? found = some call) :
    Nonempty (JustifiedCall source bindings call) := by
  obtain ⟨hplace, haccepts⟩ := accepts_of_mem_findAll hfound
  obtain ⟨middle, hcaptures, hboundary, hname, hopening⟩ := exists_of_accepts_direct haccepts
  obtain ⟨seen, rest, hmasked, hstart⟩ := Cursor.exists_eq_between hplace
  rw [hstart] at hcaptures hboundary hname
  obtain ⟨name, htext, -, -, hreads⟩ := exists_text_of_accepts hname
  have hspan : found.get? "hook" = some ⟨between seen rest, middle⟩ := by
    rw [Match.get?, hcaptures]
    rfl
  rw [ofMatch?, hspan, Option.map_some, htext] at hcall
  obtain rfl : HookCall.mk (byteSize seen) name = call := Option.some.inj hcall
  obtain ⟨hmem, hmark⟩ : name ∈ bindings.hooks ∧ seen.getLast?.any isMemberMark = false := by
    rw [isDirectCall, Match.text, hspan, Option.map_some, Option.getD_some, htext] at hdirect
    simpa [between] using hdirect
  obtain rfl : rest = name.toList ++ middle.rest := hreads.rest_eq
  have halone : seen.getLast?.any isNamePart = false := by
    obtain ⟨tail, hfirst, -⟩ := exists_of_isHookName (hholds name hmem)
    rw [hfirst] at hboundary
    exact not_inside_of_boundary (by decide +kernel) hboundary hmark
  exact exists_justifiedCall (hholds name hmem) hmasked rfl (opensCall_of_accepts hopening) halone
    (.inl ⟨hmem, hmark⟩)

/-- In front of a member stands a dot or a blank. -/
theorem not_inside_of_memberLead {lead gap gap' : List Char}
    (hblank : ∀ c ∈ gap', Text.isBlank c = true) :
    (lead ++ (gap ++ '.' :: gap')).getLast?.any isNamePart = false := by
  rw [← List.append_assoc]
  rcases List.eq_nil_or_concat' gap' with rfl | ⟨first, c, rfl⟩
  · rw [List.getLast?_concat]
    exact isNamePart_eq_false_of_isOpeningChar rfl
  · rw [← List.cons_append, ← List.append_assoc, List.getLast?_concat]
    apply isNamePart_eq_false_of_isOpeningChar
    simp [isOpeningChar, hblank c (List.mem_append_right _ List.mem_cons_self)]

theorem exists_justifiedCall_of_member (hfound : found ∈ member.findAll (maskChars source))
    (hmember : isMemberCall bindings found = true) (hcall : ofMatch? found = some call) :
    Nonempty (JustifiedCall source bindings call) := by
  obtain ⟨hplace, haccepts⟩ := accepts_of_mem_findAll hfound
  obtain ⟨spaceEnd, span, gap, gap', hcaptures, hspace, hgap, hgap', hdot, hname, hopening⟩ :=
    exists_of_accepts_member haccepts
  obtain ⟨seen, rest, hmasked, hstart⟩ := Cursor.exists_eq_between hplace
  rw [hstart] at hcaptures hspace
  obtain ⟨space, hspaceText, hspaceNe, hspacePlain, hspaceReads⟩ := exists_text_of_accepts hspace
  obtain ⟨name, htext, -, -, hreads⟩ := exists_text_of_accepts hname
  have hget : found.get? "space" = some ⟨between seen rest, spaceEnd⟩ := by
    rw [Match.get?, hcaptures]
    rfl
  have hspan : found.get? "hook" = some span := by
    rw [Match.get?, hcaptures]
    rfl
  rw [ofMatch?, hspan, Option.map_some, htext] at hcall
  obtain rfl : HookCall.mk span.start.offset name = call := Option.some.inj hcall
  obtain ⟨hmem, hhook⟩ : space ∈ bindings.namespaces ∧ isHookName name = true := by
    simpa [isMemberCall, Match.text, hget, hspan, hspaceText, htext] using hmember
  -- what the match reads in front of the hook's name
  have hlead := hspaceReads.append hdot
  obtain rfl : rest = (space.toList ++ (gap ++ '.' :: gap')) ++ (name.toList ++ span.stop.rest) :=
    hreads.rest_eq ▸ hlead.rest_eq
  have hseen : maskChars source =
      (seen ++ (space.toList ++ (gap ++ '.' :: gap'))) ++ (name.toList ++ span.stop.rest) :=
    hmasked.trans (List.append_assoc _ _ _).symm
  rw [List.append_assoc] at hmasked
  obtain ⟨code, hcode, -⟩ := exists_codePiece hmasked hspaceNe fun c hc =>
    isNamePart_of_isNameChar (hspacePlain c hc)
  refine exists_justifiedCall hhook hseen ?_ (opensCall_of_accepts hopening) ?_
    (.inr ⟨space, hmem, byteSize seen, code, gap, gap', hgap, hgap', by rw [hcode]⟩)
  · rw [Text.byteSize_append]
    exact hlead.offset_eq
  · rw [← List.append_assoc]
    exact not_inside_of_memberLead hgap'

/-! ## All calls -/

/-- Every call that is listed is justified by what the source binds, and every name that the source
binds comes from an import clause of a router module, whose literal is listed as an import unless it
is empty. -/
theorem allIn_justified (source : String) (routers : GlobSet) :
    let bindings := collect source.toList (maskChars source.toList) routers
    (∀ call ∈ allIn source routers, Nonempty (JustifiedCall source.toList bindings call)) ∧
      (∀ hook ∈ bindings.hooks, ∃ clause : RouterClause source routers,
        hook ∈ hookNames clause.bindings ∧ clause.Writes hook.toList) ∧
      ∀ space ∈ bindings.namespaces, ∃ clause : RouterClause source routers,
        space ∈ spaceNames clause.bindings ∧ clause.Writes space.toList := by
  refine ⟨fun call hcall => ?_, fun hook => RouterClause.exists_of_mem_hooks,
    fun space => RouterClause.exists_of_mem_namespaces⟩
  obtain ⟨found, hfound, hmatch⟩ := exists_isCall_of_mem_allIn hcall
  rcases hfound with ⟨hfound, hdirect⟩ | ⟨hfound, hmember⟩
  · exact exists_justifiedCall_of_direct (holdsHooks_collect _ _ _) hfound hdirect hmatch
  · exact exists_justifiedCall_of_member hfound hmember hmatch

/-- A clause binds a hook and a name of the whole module, and both are called. -/
theorem both_calls_justified :
    let source := "import useNav, * as nav from 'next/navigation';\nuseNav(nav . useRouter?.())"
    let routers := GlobSet.ofList ["next/navigation"]
    let bindings := collect source.toList (maskChars source.toList) routers
    allIn source routers = [⟨48, "useNav"⟩, ⟨61, "useRouter"⟩] ∧
      bindings = ⟨["useNav"], ["nav"]⟩ ∧
      Nonempty (JustifiedCall source.toList bindings ⟨48, "useNav"⟩) ∧
      Nonempty (JustifiedCall source.toList bindings ⟨61, "useRouter"⟩) ∧
      (∃ clause : RouterClause source routers,
        "useNav" ∈ hookNames clause.bindings ∧ clause.Writes "useNav".toList) ∧
      ∃ clause : RouterClause source routers,
        "nav" ∈ spaceNames clause.bindings ∧ clause.Writes "nav".toList := by
  intro source routers bindings
  have hcalls : allIn source routers = [⟨48, "useNav"⟩, ⟨61, "useRouter"⟩] := by decide +kernel
  have hbindings : bindings = ⟨["useNav"], ["nav"]⟩ := by decide +kernel
  obtain ⟨hjustified, hhooks, hspaces⟩ := allIn_justified source routers
  have hhook : "useNav" ∈ bindings.hooks := by
    rw [hbindings]
    exact List.mem_cons_self
  have hspace : "nav" ∈ bindings.namespaces := by
    rw [hbindings]
    exact List.mem_cons_self
  rw [hcalls] at hjustified
  exact ⟨hcalls, hbindings, hjustified _ List.mem_cons_self,
    hjustified _ (List.mem_cons_of_mem _ List.mem_cons_self), hhooks _ hhook, hspaces _ hspace⟩

end HookCall

end LayerLint.Source
