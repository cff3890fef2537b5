import LayerLint.Proofs.Source.CommentedReference
import LayerLint.Proofs.Source.WidenedClause

/-! # Calls of router hooks around a comment

An import clause has the same specifier in a source text whether a comment is put in or not, and it
binds the same names, also where the comment stands inside of it. So both texts call the same hooks,
and the offsets of the calls differ by the comment.
-/

namespace LayerLint.Source

open Pattern
open Text (Cursor Span Widening)

namespace RouterBindings

/-! ## Import clauses -/

/-- An import clause remembers what it binds, and its specifier is its only quoted group. -/
theorem exists_of_accepts_importClause {start stop : Cursor} {captures : Captures}
    (h : importClause.Accepts start captures stop) :
    ∃ bindings more, captures = ("bindings", bindings) :: more ∧
      Nonempty (Quotation start more stop) := by
  have hfrom : (word "from").StaysIn (!isDelimiter ·) := staysIn_word (by decide)
  have hlead : (all [boundary, word "import", someBlanks, Reference.typeWord]).StaysIn
      (!isDelimiter ·) :=
    ⟨trivial, staysIn_word (by decide), Reference.staysIn_someBlanks, Reference.staysIn_typeWord,
      trivial⟩
  have hbetween : ∀ pattern ∈ [someBlanks, Reference.typeWord, short Reference.isClauseChar,
      blanks, boundary, word "from", blanks], pattern.StaysIn (!isDelimiter ·) := by
    simp only [List.forall_mem_cons]
    exact ⟨Reference.staysIn_someBlanks, Reference.staysIn_typeWord, Reference.staysIn_clauseChars,
      Reference.not_isDelimiter_of_isBlank, trivial, hfrom, Reference.not_isDelimiter_of_isBlank,
      List.forall_mem_nil _⟩
  have hsplit : (all ([boundary, word "import", someBlanks, Reference.typeWord] ++
      named "bindings" (short Reference.isClauseChar) ::
        [blanks, boundary, word "from", blanks, Reference.literal])).Accepts start captures stop := h
  obtain ⟨middle, before, after, hbefore, hafter, rfl⟩ := hsplit.of_all_append
  obtain ⟨rfl, -⟩ := hbefore.reads_of_staysIn hlead
  cases hafter with
  | @andThen _ _ _ _ _ _ more hnamed hrest =>
      cases hnamed with
      | named hbindings =>
          obtain ⟨rfl, -⟩ := hbindings.reads_of_staysIn Reference.staysIn_clauseChars
          -- without its name, what the clause binds is a piece like any other
          have hafter : (all [short Reference.isClauseChar, blanks, boundary, word "from", blanks,
              Reference.literal]).Accepts middle more stop := .andThen hbindings hrest
          have hkeyword : "import".toList = 'i' :: "mport".toList := by decide
          exact ⟨_, more, rfl, Reference.quotation_of_accepts hkeyword (by decide) (by decide) _ []
            hbetween (List.forall_mem_nil _) (hbefore.all_append hafter)⟩

end RouterBindings

namespace Commenting

variable (text : Commenting)

theorem keeps_importClause : Keeps text.widening RouterBindings.importClause .exact .silent := by
  have himport : Keeps text.widening (word "import") .free .silent :=
    Keeps.word (by decide) (by decide)
  have hbindings : Keeps text.widening (named "bindings" (short Reference.isClauseChar))
      .tolerant .exact := Keeps.named "bindings" (Keeps.short_of_open isBlank_isClauseChar)
  have hliteral := Keeps.boundary.andThen text.spread.keepsLiterals.keeps_fromLiteral rfl
  have hfrom := Keeps.blanks.andThen hliteral rfl
  have htype := (keeps_typeWord text.widening).andThen (hbindings.andThen hfrom rfl) rfl
  exact Keeps.boundary.andThen (himport.andThen (Keeps.someBlanks.andThen htype rfl) rfl) rfl

/-- The specifier of a clause is the same with the comment. -/
theorem specifierOf_commented {found found' : Match}
    (h : MatchAlike text.widening.Twin text.widening.Near RouterBindings.importClause found found') :
    RouterBindings.specifierOf text.commented found' =
      RouterBindings.specifierOf text.plain found := by
  obtain ⟨bindings, more, hcaptures, ⟨quotation⟩⟩ :=
    RouterBindings.exists_of_accepts_importClause h.accepts
  obtain ⟨bindings', more', hcaptures', ⟨quotation'⟩⟩ :=
    RouterBindings.exists_of_accepts_importClause h.accepts'
  have hspan := h.captures
  rw [hcaptures, hcaptures', quotation.captures_eq, quotation'.captures_eq] at hspan
  obtain ⟨-, hspan⟩ := List.forall₂_cons.mp hspan
  obtain ⟨⟨-, hspan⟩, -⟩ := List.forall₂_cons.mp hspan
  have hslice := (text.spread.slice?_quotation quotation quotation' h.start.mem_places.1
    hspan.start hspan.stop).2
  have hget : found.get? "specifier" = some ⟨quotation.opening, quotation.closing⟩ := by
    rw [Match.get?, hcaptures]
    exact congrArg (List.lookup "specifier") quotation.captures_eq
  have hget' : found'.get? "specifier" = some ⟨quotation'.opening, quotation'.closing⟩ := by
    rw [Match.get?, hcaptures']
    exact congrArg (List.lookup "specifier") quotation'.captures_eq
  rw [RouterBindings.specifierOf, RouterBindings.specifierOf, hget, hget']
  simp only [hslice]

/-- The imports of both texts bind the same names. -/
theorem collect_commented (routers : GlobSet) :
    RouterBindings.collect text.commented (maskChars text.commented) routers =
      RouterBindings.collect text.plain (maskChars text.plain) routers := by
  rw [RouterBindings.collect, RouterBindings.collect, text.maskChars_commented,
    text.maskChars_plain]
  refine (List.rel_foldl (P := Eq) ?_ rfl text.keeps_importClause.forall₂_findAll).symm
  rintro bindings _ rfl found found' halike
  beta_reduce
  rw [text.specifierOf_commented halike,
    RouterBindings.addClause_eq (halike.widens_text "bindings")]

end Commenting

namespace HookCall

open RouterBindings

variable {w : Widening}

theorem keeps_named (w : Widening) (name : String) : Keeps w (named name identifier) .free .silent :=
  Keeps.named name keeps_identifier

theorem keeps_opening : Keeps w opening .free .exact := by
  have hmark : Keeps w (word "?.") .free .silent := Keeps.word (by decide) (by decide)
  have hblanks : Keeps w blanks .silent .exact := Keeps.blanks.of_covers rfl rfl
  have hopen : Keeps w (word "(") .free .silent := Keeps.word (by decide) (by decide)
  have hmaybe := (hmark.andThen hblanks rfl).maybe (.inl rfl) rfl
  exact Keeps.blanks.andThen (hmaybe.andThen hopen.last rfl) rfl

theorem remembers_opening (name : String) : opening.Remembers name Solid :=
  ⟨trivial, ⟨⟨remembers_word "?.", trivial⟩, trivial⟩, remembers_word "(", trivial⟩

theorem keeps_direct : Keeps w direct .exact .silent := by
  have hcall := (keeps_named w "hook").andThen keeps_opening.last rfl
  have hdirect := Keeps.boundary.andThen hcall rfl
  exact hdirect.of_covers rfl rfl

theorem remembers_direct : direct.Remembers "hook" Solid :=
  ⟨trivial, remembers_identifier "hook" "hook", remembers_opening "hook", trivial⟩

theorem keeps_member : Keeps w member .exact .silent := by
  have hdot : Keeps w (word ".") .free .silent := Keeps.word (by decide) (by decide)
  have hcall := (keeps_named w "hook").andThen keeps_opening.last rfl
  have hmember := Keeps.blanks.andThen (hdot.andThen (Keeps.blanks.andThen hcall rfl) rfl) rfl
  have hspace := Keeps.boundary.andThen ((keeps_named w "space").andThen hmember rfl) rfl
  exact hspace.of_covers rfl rfl

theorem remembers_member (name : String) : member.Remembers name Solid :=
  ⟨trivial, remembers_identifier name "space", trivial, remembers_word ".", trivial,
    remembers_identifier name "hook", remembers_opening name, trivial⟩

/-! ## Calls -/

/-- A call at the same place of the wide text. -/
def shift (w : Widening) (call : HookCall) : HookCall :=
  { call with offset := w.shift call.offset }

theorem ofMatch?_eq {pattern : Pattern} {found found' : Match}
    (h : MatchAlike w.Twin w.Near pattern found found') (hsolid : pattern.Remembers "hook" Solid) :
    ofMatch? found' = (ofMatch? found).map (shift w) := by
  rw [ofMatch?, ofMatch?]
  rcases none_or_some_of_rel (h.rel_get?_of_solid hsolid) with
    ⟨hnone, hnone'⟩ | ⟨span, span', hspan, hspan', htwin, htext⟩
  · rw [hnone, hnone']
    rfl
  · rw [hspan, hspan', Option.map_some, Option.map_some, Option.map_some, htwin.offset_eq, htext]
    rfl

theorem isDirectCall_eq (bindings : RouterBindings) {found found' : Match}
    (h : MatchAlike w.Twin w.Near direct found found') :
    isDirectCall bindings found' = isDirectCall bindings found := by
  rw [isDirectCall, isDirectCall, h.text_eq remembers_direct]
  rcases none_or_some_of_rel (h.rel_get?_of_solid remembers_direct) with
    ⟨hnone, hnone'⟩ | ⟨span, span', hspan, hspan', htwin, -⟩
  · rw [hnone, hnone']
  · rw [hspan, hspan', Option.any_some, Option.any_some,
      htwin.before_any_eq isMemberMark_of_isBlank]

theorem isMemberCall_eq (bindings : RouterBindings) {found found' : Match}
    (h : MatchAlike w.Twin w.Near member found found') :
    isMemberCall bindings found' = isMemberCall bindings found := by
  rw [isMemberCall, isMemberCall, h.text_eq (remembers_member "space"),
    h.text_eq (remembers_member "hook")]

/-- The calls of one form that pass a test which both texts agree on. -/
theorem filterMap_filter_eq {pattern : Pattern} (hkeeps : Keeps w pattern .exact .silent)
    (hsolid : pattern.Remembers "hook" Solid) {passes : Match → Bool}
    (hpasses : ∀ {found found'}, MatchAlike w.Twin w.Near pattern found found' →
      passes found' = passes found) :
    ((pattern.findAll w.wide).filter passes).filterMap ofMatch? =
      (((pattern.findAll w.narrow).filter passes).filterMap ofMatch?).map (shift w) := by
  rw [List.filterMap_filter, List.filterMap_filter]
  apply filterMap_eq_of_forall₂ hkeeps.forall₂_findAll
  intro found found' halike
  rw [hpasses halike, ofMatch?_eq halike hsolid]
  split
  · rfl
  · rfl

theorem place_shift (call : HookCall) (listed : List HookCall) :
    (shift w call).place (listed.map (shift w)) = (call.place listed).map (shift w) := by
  induction listed with
  | nil => rfl
  | cons next rest ih =>
      rw [List.map_cons, place, place]
      simp only [shift, w.shift_lt_shift_iff, w.shift_inj] at ih ⊢
      split
      · rfl
      · split
        · rfl
        · exact congrArg (shift w next :: ·) ih

theorem foldl_place_shift (calls listed : List HookCall) :
    (calls.map (shift w)).foldl (fun listed call => call.place listed) (listed.map (shift w)) =
      (calls.foldl (fun listed call => call.place listed) listed).map (shift w) := by
  rw [List.foldl_map]
  exact List.foldl_hom (List.map (shift w)) fun listed call => place_shift call listed

/-- With a comment the same hooks are called, those behind it at greater offsets. -/
theorem allIn_commented (text : Commenting) (routers : GlobSet) :
    allIn (String.ofList text.commented) routers =
      (allIn (String.ofList text.plain) routers).map (shift text.widening) := by
  rw [allIn, allIn]
  simp only [String.toList_ofList, text.collect_commented]
  generalize collect text.plain (maskChars text.plain) routers = bindings
  split
  · rfl
  · rw [List.filterMap_append, List.filterMap_append, text.maskChars_commented,
      text.maskChars_plain, filterMap_filter_eq keeps_direct remembers_direct
        (isDirectCall_eq bindings), filterMap_filter_eq keeps_member (remembers_member "hook")
        (isMemberCall_eq bindings), ← List.map_append]
    exact foldl_place_shift _ []

end HookCall

/-! ## Everything that is found -/

/-- With a comment the same names are declared, those behind it at greater offsets. -/
theorem Declaration.allIn_commented (text : Commenting) :
    (allIn (String.ofList text.commented)).map declared =
      ((allIn (String.ofList text.plain)).map declared).map (shiftDeclared text.widening) := by
  rw [allIn_eq_allInMasked, allIn_eq_allInMasked, String.toList_ofList, String.toList_ofList,
    text.maskChars_plain, text.maskChars_commented]
  exact allInMasked_eq text.widening text.plain text.commented

/-- A block comment behind a blank of the code, or at the beginning, changes nothing of what is found
in a source text: not the references, nor the declarations, nor the calls of router hooks, whatever
the comment holds and wherever it stands. -/
theorem comment_changes_nothing (before body after : String)
    (hcode : Region.after none .code before.toList = .code)
    (hblank : before = "" ∨
      ∃ c, (mask before).toList.getLast? = some c ∧ Text.isBlank c = true)
    (hopen : ¬"*/".toList <:+: body.toList) :
    let plain := before ++ after
    let commented := before ++ ("/*" ++ body ++ "*/") ++ after
    (Reference.allIn commented).map (fun reference => (reference.specifier, reference.kind)) =
        (Reference.allIn plain).map (fun reference => (reference.specifier, reference.kind)) ∧
      (Declaration.allIn commented).map (fun declaration => (declaration.kind, declaration.name)) =
        (Declaration.allIn plain).map (fun declaration => (declaration.kind, declaration.name)) ∧
      ∀ routers, (HookCall.allIn commented routers).map HookCall.name =
        (HookCall.allIn plain routers).map HookCall.name := by
  have hlast : ∀ c, (maskChars before.toList).getLast? = some c → Text.isBlank c = true := by
    intro c hc
    rcases hblank with rfl | ⟨d, hd, hdblank⟩
    · cases hc
    · rw [mask, String.toList_ofList, hc] at hd
      rwa [Option.some.inj hd]
  let text : Commenting := ⟨before.toList, body.toList, after.toList, hcode, hlast, hopen⟩
  have hplain : before ++ after = String.ofList text.plain := by
    rw [Commenting.plain, String.ofList_append, String.ofList_toList, String.ofList_toList]
  have hcommented : before ++ ("/*" ++ body ++ "*/") ++ after = String.ofList text.commented := by
    apply String.toList_injective
    rw [String.toList_ofList, Commenting.commented, Commenting.comment]
    simp [text]
  dsimp only
  rw [hplain, hcommented]
  refine ⟨?_, ?_, fun routers => ?_⟩
  · rw [Reference.allIn, Reference.allIn, String.toList_ofList, String.toList_ofList,
      text.allInMasked_commented, List.map_map]
    rfl
  · have hall := congrArg (List.map fun entry => (entry.1, entry.2.1))
      (Declaration.allIn_commented text)
    rw [List.map_map, List.map_map, List.map_map] at hall
    exact hall
  · rw [HookCall.allIn_commented text routers, List.map_map]
    rfl

/-- A quote and a specifier in a comment inside an import clause: neither counts. -/
theorem comment_in_clause_changes_nothing :
    let before := "import "
    let body := "' from \"./a\"\n"
    let after := "useRouter from 'next/router';\ntype Id = number;\nuseRouter()"
    let commented := before ++ ("/*" ++ body ++ "*/") ++ after
    Region.after none .code before.toList = .code ∧
      (mask before).toList.getLast? = some ' ' ∧ ¬"*/".toList <:+: body.toList ∧
      (Reference.allIn commented).map (fun reference => (reference.specifier, reference.kind)) =
        [("next/router", .staticImport)] ∧
      (Declaration.allIn commented).map (fun declaration => (declaration.kind, declaration.name)) =
        [(.typeAlias, "Id")] ∧
      (HookCall.allIn commented (GlobSet.ofList ["next/router"])).map HookCall.name =
        ["useRouter"] := by
  intro before body after commented
  have hcode : Region.after none .code before.toList = .code := by decide +kernel
  have hblank : (mask before).toList.getLast? = some ' ' := by decide +kernel
  have hopen : ¬"*/".toList <:+: body.toList := by decide +kernel
  obtain ⟨hreferences, hdeclarations, hcalls⟩ := comment_changes_nothing before body after hcode
    (.inr ⟨' ', hblank, by decide⟩) hopen
  refine ⟨hcode, hblank, hopen, hreferences.trans ?_, hdeclarations.trans ?_, (hcalls _).trans ?_⟩
  · decide +kernel
  · decide +kernel
  · decide +kernel

end LayerLint.Source
