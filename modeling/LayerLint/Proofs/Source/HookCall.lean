import LayerLint.Proofs.Pattern.Search
import LayerLint.Proofs.Source.Callee
import Mathlib.Data.List.Induction

/-! # Calls by name

A hook that is called by its name is found wherever the name stands alone in the code: a search
passes over a call only for the sake of a match that begins before it, and such a match would hold
the name as a part of a longer one. What is found is dropped if a dot stands right before the name.
That drops the calls of members, and with them those that three dots spread.
-/

namespace LayerLint.Source.HookCall

open Pattern RouterBindings
open Text (Cursor Span)
open Text.Cursor (between)

/-! ## Lists of calls -/

variable {call other : HookCall} {calls listed : List HookCall}

theorem mem_of_mem_place (h : other ∈ call.place listed) : other = call ∨ other ∈ listed := by
  induction listed with
  | nil => exact .inl (List.mem_singleton.mp h)
  | cons next rest ih =>
      rw [place] at h
      split at h
      · exact List.mem_cons.mp h
      · split at h
        · exact (List.mem_cons.mp h).imp_right (List.mem_cons_of_mem _)
        · rcases List.mem_cons.mp h with rfl | h
          · exact .inr List.mem_cons_self
          · exact (ih h).imp_right (List.mem_cons_of_mem _)

theorem mem_place_self (call : HookCall) (listed : List HookCall) : call ∈ call.place listed := by
  induction listed with
  | nil => exact List.mem_cons_self
  | cons next rest ih =>
      rw [place]
      split
      · exact List.mem_cons_self
      · split
        · exact List.mem_cons_self
        · exact List.mem_cons_of_mem _ ih

/-- A call is replaced only by another one at its offset. -/
theorem exists_mem_place (h : other ∈ listed) :
    ∃ kept ∈ call.place listed, kept.offset = other.offset := by
  induction listed with
  | nil => cases h
  | cons next rest ih =>
      rw [place]
      split
      · exact ⟨other, List.mem_cons_of_mem _ h, rfl⟩
      · split
        next hsame =>
          rcases List.mem_cons.mp h with rfl | h
          · exact ⟨call, List.mem_cons_self, hsame⟩
          · exact ⟨other, List.mem_cons_of_mem _ h, rfl⟩
        next =>
          rcases List.mem_cons.mp h with rfl | h
          · exact ⟨other, List.mem_cons_self, rfl⟩
          · obtain ⟨kept, hkept, hoffset⟩ := ih h
            exact ⟨kept, List.mem_cons_of_mem _ hkept, hoffset⟩

/-- Among calls in order, a call goes to its place. -/
theorem pairwise_place (call : HookCall)
    (h : listed.Pairwise fun first second => first.offset < second.offset) :
    (call.place listed).Pairwise fun first second => first.offset < second.offset := by
  induction listed with
  | nil => exact List.pairwise_singleton _ _
  | cons next rest ih =>
      obtain ⟨hnext, hrest⟩ := List.pairwise_cons.mp h
      rw [place]
      split
      next hbefore =>
        refine List.pairwise_cons.mpr ⟨List.forall_mem_cons.mpr ⟨hbefore, ?_⟩, h⟩
        exact fun later hlater => Nat.lt_trans hbefore (hnext later hlater)
      next hnotBefore =>
        split
        next hsame =>
          refine List.pairwise_cons.mpr ⟨fun later hlater => ?_, hrest⟩
          rw [hsame]
          exact hnext later hlater
        next hne =>
          refine List.pairwise_cons.mpr ⟨fun later hlater => ?_, ih hrest⟩
          rcases mem_of_mem_place hlater with rfl | hlater
          · omega
          · exact hnext later hlater

/-- The calls of a list, each put at its place. -/
def placeAll (calls : List HookCall) : List HookCall :=
  calls.foldl (fun listed call => call.place listed) []

theorem mem_of_mem_placeAll (h : call ∈ placeAll calls) : call ∈ calls := by
  induction calls using List.reverseRecOn with
  | nil => cases h
  | append_singleton calls last ih =>
      rw [placeAll, List.foldl_append] at h
      rcases mem_of_mem_place h with rfl | h
      · exact List.mem_append_right _ List.mem_cons_self
      · exact List.mem_append_left _ (ih h)

theorem pairwise_placeAll (calls : List HookCall) :
    (placeAll calls).Pairwise fun first second => first.offset < second.offset :=
  List.foldlRecOn _ _ .nil fun _ hsorted call _ => pairwise_place call hsorted

theorem exists_mem_placeAll (h : call ∈ calls) :
    ∃ kept ∈ placeAll calls, kept.offset = call.offset := by
  induction calls using List.reverseRecOn with
  | nil => cases h
  | append_singleton calls last ih =>
      rw [placeAll, List.foldl_append]
      rcases List.mem_append.mp h with h | h
      · obtain ⟨kept, hkept, hoffset⟩ := ih h
        obtain ⟨kept', hkept', hoffset'⟩ : ∃ kept' ∈ last.place (placeAll calls),
            kept'.offset = kept.offset := exists_mem_place hkept
        exact ⟨kept', hkept', hoffset'.trans hoffset⟩
      · rw [List.mem_singleton.mp h]
        exact ⟨last, mem_place_self last _, rfl⟩

/-! ## Matches and calls -/

/-- A match of a form of calls that counts as one. -/
def IsCall (source : List Char) (routers : GlobSet) (found : Match) : Prop :=
  let bindings := collect source (maskChars source) routers
  (found ∈ direct.findAll (maskChars source) ∧ isDirectCall bindings found = true) ∨
    (found ∈ member.findAll (maskChars source) ∧ isMemberCall bindings found = true)

variable {source : String} {routers : GlobSet} {found : Match}

theorem allIn_eq_placeAll (source : String) (routers : GlobSet) :
    allIn source routers =
      let bindings := collect source.toList (maskChars source.toList) routers
      if bindings.isEmpty then [] else
        placeAll (((direct.findAll (maskChars source.toList)).filter (isDirectCall bindings) ++
          (member.findAll (maskChars source.toList)).filter (isMemberCall bindings)).filterMap
            ofMatch?) := rfl

theorem pairwise_allIn (source : String) (routers : GlobSet) :
    (allIn source routers).Pairwise fun first second => first.offset < second.offset := by
  rw [allIn_eq_placeAll]
  dsimp only
  split
  · exact .nil
  · exact pairwise_placeAll _

theorem exists_isCall_of_mem_allIn (h : call ∈ allIn source routers) :
    ∃ found, IsCall source.toList routers found ∧ ofMatch? found = some call := by
  rw [allIn_eq_placeAll] at h
  dsimp only at h
  split at h
  · cases h
  · obtain ⟨found, hfound, hcall⟩ := List.mem_filterMap.mp (mem_of_mem_placeAll h)
    refine ⟨found, ?_, hcall⟩
    exact (List.mem_append.mp hfound).imp List.mem_filter.mp List.mem_filter.mp

theorem exists_mem_allIn_of_isCall (h : IsCall source.toList routers found)
    (hbound : (collect source.toList (maskChars source.toList) routers).isEmpty = false)
    (hcall : ofMatch? found = some call) :
    ∃ kept ∈ allIn source routers, kept.offset = call.offset := by
  rw [allIn_eq_placeAll]
  dsimp only
  rw [hbound, if_neg Bool.false_ne_true]
  apply exists_mem_placeAll
  refine List.mem_filterMap.mpr ⟨found, List.mem_append.mpr ?_, hcall⟩
  exact h.imp List.mem_filter.mpr List.mem_filter.mpr

/-! ## Calls of one place -/

/-- A match that counts as a call remembers a callee of the masked text. -/
theorem IsCall.exists_callee {source : List Char} (h : IsCall source routers found) :
    ∃ span, found.get? "hook" = some span ∧ Nonempty (Callee span found.whole.stop) ∧
      span.start ∈ Cursor.places (maskChars source) := by
  rcases h with ⟨hfound, -⟩ | ⟨hfound, -⟩
  · obtain ⟨hstart, haccepts⟩ := accepts_of_mem_findAll hfound
    obtain ⟨middle, hcaptures, hcallee⟩ := callee_of_accepts_direct haccepts
    exact ⟨_, by rw [Match.get?, hcaptures]; rfl, hcallee, hstart⟩
  · obtain ⟨hstart, haccepts⟩ := accepts_of_mem_findAll hfound
    obtain ⟨space, span, name, gap, gap', hcaptures, hcallee, -, -, -, -, hreads⟩ :=
      callee_of_accepts_member haccepts
    exact ⟨span, by rw [Match.get?, hcaptures]; rfl, hcallee,
      Cursor.mem_places_of_reads hstart hreads⟩

section

variable {name before after : List Char} {c : Char}

/-- All calls at the place of a name call that name. -/
theorem eq_of_mem_allIn (hmasked : maskChars source.toList = before ++ (name ++ c :: after))
    (hname : ∀ d ∈ name, isNameChar d = true) (hc : isNameChar c = false)
    (h : call ∈ allIn source routers) (hoffset : call.offset = Text.byteSize before) :
    call = ⟨Text.byteSize before, String.ofList name⟩ := by
  obtain ⟨found, hfound, hcall⟩ := exists_isCall_of_mem_allIn h
  obtain ⟨span, hspan, ⟨callee⟩, hplace⟩ := hfound.exists_callee
  rw [ofMatch?, hspan] at hcall
  obtain rfl : HookCall.mk span.start.offset span.text = call := Option.some.inj hcall
  rw [hmasked] at hplace
  have hstart := Cursor.eq_between_of_mem_places hplace hoffset
  have hchars := callee.chars_eq hname hc (by rw [hstart]; rfl)
  rw [Span.text, hchars]
  exact congrArg (HookCall.mk · _) hoffset

/-- No match of a call by name passes over a name that stands alone. -/
theorem start_eq_of_mem_findAll (hmasked : maskChars source.toList = before ++ (name ++ c :: after))
    {first : Char} {rest : List Char} (hfirst : name = first :: rest)
    (hname : ∀ d ∈ name, isNameChar d = true) (halone : before.getLast?.any isNamePart = false)
    (hfound : found ∈ direct.findAll (maskChars source.toList))
    (hle : found.whole.start.offset ≤ Text.byteSize before)
    (hlt : Text.byteSize before < found.whole.stop.offset) :
    found.whole.start = between before (name ++ c :: after) := by
  obtain ⟨hstart, haccepts⟩ := accepts_of_mem_findAll hfound
  obtain ⟨middle, -, ⟨callee⟩⟩ := callee_of_accepts_direct haccepts
  have hreads := callee.reads_name.append callee.reads_rest
  have hstop := Cursor.mem_places_of_reads hstart hreads
  rw [hmasked] at hstart hstop
  obtain ⟨lead, ahead, d, behind, hbefore, hbetween, hahead, hbehind⟩ :=
    Cursor.exists_cut hstart hstop hle hlt
  rcases List.eq_nil_or_concat' ahead with rfl | ⟨ahead, last, rfl⟩
  · rw [hbetween, hbefore, List.append_nil, List.nil_append]
  · exfalso
    have hlast : isNamePart last = false := by
      rwa [hbefore, ← List.append_assoc, List.getLast?_concat, Option.any_some] at halone
    -- the place is inside the piece that the match reads, in its name or behind it
    rcases List.append_eq_append_iff.mp (hreads.unique (hahead.append hbehind)) with
      ⟨more, hmore, hrest⟩ | ⟨more, hmore, -⟩
    · have hd : isOpeningChar d = true := by
        apply callee.isOpeningChar_rest
        rw [hrest]
        exact List.mem_append_right _ List.mem_cons_self
      have hrests : name ++ c :: after = d :: (behind ++ found.whole.stop.rest) := hbehind.rest_eq
      rw [hfirst] at hrests
      obtain rfl := (List.cons.inj hrests).1
      have hnot := hname first (by rw [hfirst]; exact List.mem_cons_self)
      rw [isNameChar_eq_false_of_isOpeningChar hd] at hnot
      cases hnot
    · have hmem : last ∈ callee.name := by
        rw [hmore]
        simp
      rw [isNamePart_of_isNameChar (callee.isNameChar_name last hmem)] at hlast
      cases hlast

/-- The name of a called member does not stand behind two dots. -/
theorem not_dots_of_accepts_member {text rest : List Char} (htext : text = before ++ rest)
    (hstart : start ∈ Cursor.places text) (h : member.Accepts start captures stop) :
    ∃ span, captures.lookup "hook" = some span ∧
      (span.start = between before rest → ¬"..".toList <:+ before) := by
  obtain ⟨space, span, name, gap, gap', rfl, -, hne, hname, hgap, hgap', hreads⟩ :=
    callee_of_accepts_member h
  refine ⟨span, rfl, ?_⟩
  rintro hspan ⟨front, hfront⟩
  rw [hspan] at hreads
  subst htext
  obtain ⟨lead, hlead⟩ := Cursor.mem_places_iff.mp hstart
  have hbefore := (hlead.append hreads).unique (Cursor.reads_between [] before rest)
  have hlast : before.getLast? = some '.' := by
    rw [← hfront, List.getLast?_append]
    rfl
  -- nothing stands between the name and the dot before it
  obtain rfl : gap' = [] := by
    by_contra hne'
    have hmem : '.' ∈ gap' := by
      apply List.mem_of_getLast?
      rw [← hlast, ← hbefore]
      simp [List.getLast?_append, List.getLast?_cons, List.getLast?_eq_some_getLast hne']
    exact absurd (hgap' _ hmem) (by decide)
  have hsplit : (front ++ ['.']) ++ ['.'] = (lead ++ (name ++ gap)) ++ ['.'] := by
    rw [List.append_assoc]
    exact hfront.trans (hbefore.symm.trans (by simp))
  have hmem : '.' ∈ name ++ gap := by
    apply List.mem_of_getLast?
    have hfinal := congrArg List.getLast? (List.append_cancel_right hsplit)
    rw [List.getLast?_concat, List.getLast?_append,
      List.getLast?_eq_some_getLast (List.append_ne_nil_of_left_ne_nil hne gap)] at hfinal
    rw [List.getLast?_eq_some_getLast (List.append_ne_nil_of_left_ne_nil hne gap)]
    exact hfinal.symm
  rcases List.mem_append.mp hmem with hmem | hmem
  · exact absurd (hname _ hmem) (by decide)
  · exact absurd (hgap _ hmem) (by decide)

/-- A name that stands alone and is called is described as a call. -/
theorem exists_accepts_direct {first : Char} {rest : List Char} (hfirst : name = first :: rest)
    (hstart : isNameStart first = true) (hword : Text.isWordChar first = true)
    (hname : ∀ d ∈ name, isNameChar d = true) (halone : before.getLast?.any isNamePart = false)
    (hcall : OpensCall after) :
    ∃ captures stop, direct.Accepts (between before (name ++ after)) captures stop := by
  have hboundary : (between before (name ++ after)).isAtWordBoundary = true := by
    have hbefore : before.getLast?.any Text.isWordChar = false := by
      cases hlast : before.getLast? with
      | none => rfl
      | some c =>
          rw [hlast, Option.any_some, isNamePart, Bool.or_eq_false_iff] at halone
          exact halone.1
    have hnext : (between before (name ++ after)).precedes Text.isWordChar = true := by
      rw [hfirst]
      exact hword
    rw [Cursor.isAtWordBoundary_of_precedes hnext, between, hbefore]
    rfl
  obtain ⟨captures, stop, hopening⟩ := exists_accepts_opening (before ++ name) hcall
  have hread := Cursor.reads_between before [first] (rest ++ after)
  have hreads := Cursor.reads_between (before ++ [first]) rest after
  rw [List.append_assoc, List.singleton_append, ← hfirst] at hreads
  rw [List.singleton_append, ← List.cons_append, ← hfirst] at hread
  have hidentifier : identifier.Accepts (between before (name ++ after)) []
      (between (before ++ name) after) :=
    .andThen (.one hread hstart) (.long hreads fun d hd =>
      hname d (by rw [hfirst]; exact List.mem_cons_of_mem _ hd))
  exact ⟨_, stop, .andThen (.boundary hboundary)
    (.andThen (.named hidentifier) (.andThen hopening .empty))⟩

/-- No call is listed at a name that stands behind two dots. -/
theorem offset_ne_of_behind_dots {rest : List Char}
    (hmasked : maskChars source.toList = before ++ rest) (hdots : "..".toList <:+ before)
    (h : call ∈ allIn source routers) : call.offset ≠ Text.byteSize before := by
  intro hoffset
  obtain ⟨found, hfound, hcall⟩ := exists_isCall_of_mem_allIn h
  obtain ⟨span, hspan, -, hplace⟩ := hfound.exists_callee
  rw [ofMatch?, hspan] at hcall
  obtain rfl : HookCall.mk span.start.offset span.text = call := Option.some.inj hcall
  rw [hmasked] at hplace
  have hstart := Cursor.eq_between_of_mem_places hplace hoffset
  rcases hfound with ⟨-, hdirect⟩ | ⟨hmember, -⟩
  · obtain ⟨front, hfront⟩ := hdots
    have hlast : before.getLast? = some '.' := by
      rw [← hfront, List.getLast?_append]
      rfl
    rw [isDirectCall, hspan, Option.any_some, hstart, between, hlast] at hdirect
    simp [isMemberMark] at hdirect
  · obtain ⟨hbegin, haccepts⟩ := accepts_of_mem_findAll hmember
    obtain ⟨span', hspan', hnot⟩ := not_dots_of_accepts_member hmasked hbegin haccepts
    obtain rfl : span' = span := Option.some.inj (hspan'.symm.trans hspan)
    exact hnot hstart hdots

end

section

variable {hook : String} {before after : List Char}

/-- A bound hook whose name stands alone, without a dot before it, is found where it is called. -/
theorem exists_isCall_of_opensCall
    (hmasked : maskChars source.toList = before ++ (hook.toList ++ after))
    (hbound : hook ∈ (collect source.toList (maskChars source.toList) routers).hooks)
    (halone : before.getLast?.any isNamePart = false) (hdot : before.getLast? ≠ some '.')
    (hcall : OpensCall after) :
    ∃ found, IsCall source.toList routers found ∧
      ofMatch? found = some ⟨Text.byteSize before, hook⟩ := by
  obtain ⟨rest, hhook, hplain⟩ := exists_of_isHookName (holdsHooks_collect _ _ _ hook hbound)
  rw [← hhook] at hplain
  obtain ⟨captures, stop, haccepts⟩ := exists_accepts_direct hhook rfl (by decide +kernel)
    hplain halone hcall
  obtain ⟨c, tail, rfl, hopens⟩ := exists_cons_of_opensCall hcall
  have hc := isNameChar_eq_false_of_isOpeningChar hopens
  have hplace : between before (hook.toList ++ c :: tail) ∈
      Cursor.places (maskChars source.toList) := by
    rw [hmasked]
    exact Cursor.between_mem_places _ _
  obtain ⟨found, hfound, hinside⟩ := exists_mem_findAll_of_accepts hplace haccepts
  have hstart : found.whole.start = between before (hook.toList ++ c :: tail) := by
    rcases hinside with h | ⟨hlt, hstop⟩
    · exact h
    · exact start_eq_of_mem_findAll hmasked hhook hplain halone hfound (Nat.le_of_lt hlt) hstop
  obtain ⟨middle, hcaptures, ⟨callee⟩⟩ :=
    callee_of_accepts_direct (accepts_of_mem_findAll hfound).2
  rw [hstart] at hcaptures callee
  have hspan : found.get? "hook" = some ⟨between before (hook.toList ++ c :: tail), middle⟩ := by
    rw [Match.get?, hcaptures]
    rfl
  have htext : Span.text ⟨between before (hook.toList ++ c :: tail), middle⟩ = hook := by
    rw [Span.text, callee.chars_eq hplain hc rfl, String.ofList_toList]
  have hmark : before.getLast?.any isMemberMark = false := by
    cases hlast : before.getLast? with
    | none => rfl
    | some d =>
        rw [hlast, Option.any_some, isNamePart, Bool.or_eq_false_iff] at halone
        rw [hlast, ne_eq, Option.some.injEq] at hdot
        simp [isMemberMark, hdot, halone.2]
  refine ⟨found, .inl ⟨hfound, ?_⟩, ?_⟩
  · rw [isDirectCall, Match.text, hspan, Option.map_some, Option.getD_some, htext]
    simp [hbound, between, hmark]
  · rw [ofMatch?, hspan, Option.map_some, htext]
    rfl

/-- A bound hook that is called where its name stands alone is listed, unless a dot stands right
before the name. Behind two dots, such as those that end a spread, it is not listed. -/
theorem mem_allIn_unless_behind_dot (source : String) (routers : GlobSet) (hook : String)
    (before after : List Char)
    (hmasked : maskChars source.toList = before ++ (hook.toList ++ after))
    (hbound : hook ∈ (collect source.toList (maskChars source.toList) routers).hooks)
    (halone : before.getLast?.any isNamePart = false) (hcall : OpensCall after) :
    (before.getLast? ≠ some '.' → ⟨Text.byteSize before, hook⟩ ∈ allIn source routers) ∧
    ("..".toList <:+ before →
      ∀ call ∈ allIn source routers, call.offset ≠ Text.byteSize before) := by
  refine ⟨?_, fun hdots _ => offset_ne_of_behind_dots hmasked hdots⟩
  intro hdot
  obtain ⟨found, hfound, hofMatch⟩ :=
    exists_isCall_of_opensCall hmasked hbound halone hdot hcall
  have hnonempty : (collect source.toList (maskChars source.toList) routers).isEmpty = false := by
    rw [isEmpty, List.isEmpty_eq_false_iff.mpr (List.ne_nil_of_mem hbound), Bool.false_and]
  obtain ⟨kept, hkept, hoffset⟩ := exists_mem_allIn_of_isCall hfound hnonempty hofMatch
  obtain ⟨rest, hhook, hplain⟩ := exists_of_isHookName (holdsHooks_collect _ _ _ hook hbound)
  rw [← hhook] at hplain
  obtain ⟨c, tail, rfl, hopens⟩ := exists_cons_of_opensCall hcall
  have heq := eq_of_mem_allIn hmasked hplain (isNameChar_eq_false_of_isOpeningChar hopens) hkept
    hoffset
  rw [String.ofList_toList] at heq
  exact heq ▸ hkept

end

/-- An imported hook whose call has a mark before the parenthesis. -/
theorem useParams_listed :
    let lead := "import \x7b useParams \x7d from 'next/navigation';\nconst route = "
    let source := lead ++ "useParams?. ()"
    let routers := GlobSet.ofList ["next/navigation"]
    let before := maskChars lead.toList
    maskChars source.toList = before ++ ("useParams".toList ++ "?. ()".toList) ∧
      "useParams" ∈ (collect source.toList (maskChars source.toList) routers).hooks ∧
      before.getLast?.any isNamePart = false ∧ before.getLast? ≠ some '.' ∧
      OpensCall "?. ()".toList ∧ ⟨Text.byteSize before, "useParams"⟩ ∈ allIn source routers := by
  intro lead source routers before
  have hmasked : maskChars source.toList = before ++ ("useParams".toList ++ "?. ()".toList) := by
    decide +kernel
  have hbound : "useParams" ∈ (collect source.toList (maskChars source.toList) routers).hooks := by
    decide +kernel
  have halone : before.getLast?.any isNamePart = false := by decide +kernel
  have hdot : before.getLast? ≠ some '.' := by decide +kernel
  have hcall : OpensCall "?. ()".toList :=
    ⟨[], "?.".toList, [' '], [')'], rfl, List.forall_mem_nil _, .inr rfl,
      List.forall_mem_singleton.mpr (by decide)⟩
  exact ⟨hmasked, hbound, halone, hdot, hcall,
    (mem_allIn_unless_behind_dot source routers "useParams" before _ hmasked hbound halone
      hcall).1 hdot⟩

/-- A call that three dots spread is a call by name and is not listed. -/
theorem spread_call_not_listed :
    let lead := "import \x7b useParams \x7d from 'next/navigation';\nconst route = \x7b..."
    let source := lead ++ "useParams()\x7d"
    let routers := GlobSet.ofList ["next/navigation"]
    let before := maskChars lead.toList
    maskChars source.toList = before ++ ("useParams".toList ++ "()\x7d".toList) ∧
      "useParams" ∈ (collect source.toList (maskChars source.toList) routers).hooks ∧
      before.getLast?.any isNamePart = false ∧ OpensCall "()\x7d".toList ∧
      "...".toList <:+ before ∧ allIn source routers = [] := by
  intro lead source routers before
  refine ⟨by decide +kernel, by decide +kernel, by decide +kernel,
    ⟨[], [], [], [')', '\x7d'], rfl, List.forall_mem_nil _, .inl rfl, List.forall_mem_nil _⟩,
    by decide +kernel, by decide +kernel⟩

end LayerLint.Source.HookCall
