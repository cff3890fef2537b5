import LayerLint.Proofs.Rule.LayerDirection
import LayerLint.Proofs.Source.DeclarationSite
import LayerLint.Proofs.Source.JustifiedCall
import LayerLint.Proofs.Source.Reference
import LayerLint.Proofs.Text.Position
import LayerLint.Rule.DeclarationPlacement
import LayerLint.Rule.RouterHook
import Mathlib.Data.List.Nodup

/-! # Where findings stand

References, calls of hooks and declarations are listed by offsets that strictly increase, and each
offset is a boundary of the text. Since positions tell boundaries apart, no two violations of one
rule in one file are at the same position, and nothing is reported twice.
-/

namespace LayerLint

open Source (CodePiece Declaration HookCall JustifiedCall Literal Reference RouterBindings)
open Text (byteSize)

variable {context : Context} {file : Path} {text : String}

/-! ## Where words begin -/

/-- Between two parts of a text is a boundary, in front of its end if the second is not empty. -/
theorem Text.mem_boundaries_of_split {before after : List Char}
    (h : text.toList = before ++ after) (hne : after ≠ []) :
    byteSize before ∈ boundaries text ∧ byteSize before < text.utf8ByteSize := by
  refine ⟨mem_boundaries_iff.mpr ⟨before, ⟨after, h.symm⟩, rfl⟩, ?_⟩
  obtain ⟨c, rest, rfl⟩ := List.exists_cons_of_ne_nil hne
  rw [utf8ByteSize_eq, h, byteSize_append]
  exact Nat.lt_add_of_pos_right (byteSize_cons_pos c rest)

theorem Source.Literal.mem_boundaries (literal : Literal text.toList) :
    literal.offset ∈ Text.boundaries text ∧ literal.offset < text.utf8ByteSize := by
  have hsource : text.toList = (literal.before ++ [literal.quote]) ++
      (literal.inside ++ literal.quote :: literal.rest) := by
    simpa using literal.source_eq
  exact Text.mem_boundaries_of_split hsource (by simp)

theorem Source.CodePiece.mem_boundaries {offset : Nat} {piece : List Char}
    (code : CodePiece text.toList offset piece) (hne : piece ≠ []) :
    offset ∈ Text.boundaries text ∧ offset < text.utf8ByteSize := by
  rw [code.offset_eq]
  exact Text.mem_boundaries_of_split code.source_eq (by simp [hne])

/-- The name of a listed call is a piece of the code. -/
theorem Source.HookCall.exists_codePiece_of_mem_allIn {routers : GlobSet} {call : HookCall}
    (h : call ∈ HookCall.allIn text routers) :
    call.name.toList ≠ [] ∧ Nonempty (CodePiece text.toList call.offset call.name.toList) := by
  obtain ⟨found, hfound, hmatch⟩ := HookCall.exists_isCall_of_mem_allIn h
  obtain ⟨justified⟩ : Nonempty (JustifiedCall text.toList
      (RouterBindings.collect text.toList (Source.maskChars text.toList) routers) call) := by
    rcases hfound with ⟨hfound, hdirect⟩ | ⟨hfound, hmember⟩
    · exact HookCall.exists_justifiedCall_of_direct (RouterBindings.holdsHooks_collect _ _ _)
        hfound hdirect hmatch
    · exact HookCall.exists_justifiedCall_of_member hfound hmember hmatch
  refine ⟨fun hnil => ?_, ⟨justified.named⟩⟩
  have hstarts := justified.name_starts
  rw [hnil] at hstarts
  cases hstarts

/-! ## Positions in one text -/

/-- The place of a violation in its file. -/
def Violation.position (violation : Violation) : Text.Position :=
  ⟨violation.line, violation.column⟩

/-- The violations stand in a text, each where that begins which it reports, and no two of them at
one position. -/
structure StandApart (text : String) (reportsAt : Nat → Violation → Prop)
    (violations : List Violation) : Prop where
  nodup : (violations.map Violation.position).Nodup
  begins : ∀ violation ∈ violations, ∃ offset ∈ Text.boundaries text,
    offset < text.utf8ByteSize ∧ violation.position = .ofOffset text.toList offset ∧
      reportsAt offset violation

variable {reportsAt : Nat → Violation → Prop}

theorem standApart_nil (text : String) (reportsAt : Nat → Violation → Prop) :
    StandApart text reportsAt [] :=
  ⟨List.nodup_nil, List.forall_mem_nil _⟩

/-- Reports of things that are listed by increasing offsets stand apart. -/
theorem standApart_filterMap {α : Type} {listed : List α} {offset : α → Nat}
    {report? : α → Option Violation}
    (hlisted : listed.Pairwise fun first second => offset first < offset second)
    (hinside : ∀ thing ∈ listed,
      offset thing ∈ Text.boundaries text ∧ offset thing < text.utf8ByteSize)
    (hreport : ∀ thing ∈ listed, ∀ violation, report? thing = some violation →
      violation.position = .ofOffset text.toList (offset thing) ∧
        reportsAt (offset thing) violation) :
    StandApart text reportsAt (listed.filterMap report?) where
  nodup := by
    refine List.pairwise_map.mpr (List.pairwise_filterMap.mpr (hlisted.imp_of_mem ?_))
    intro first second hfirst hsecond hlt violation hviolation violation' hviolation' heq
    rw [(hreport first hfirst violation hviolation).1,
      (hreport second hsecond violation' hviolation').1] at heq
    have horder := Text.Position.strictMonoOn_ofOffset text (hinside first hfirst).1
      (hinside second hsecond).1 hlt
    exact horder.ne (congrArg Text.Position.order heq)
  begins := by
    intro violation hviolation
    obtain ⟨thing, hthing, hsome⟩ := List.mem_filterMap.mp hviolation
    obtain ⟨hboundary, hlt⟩ := hinside thing hthing
    exact ⟨offset thing, hboundary, hlt, hreport thing hthing violation hsome⟩

/-! ## One file -/

namespace Rule

/-- What the rule reports in one file. -/
def runIn (rule : Rule) (context : Context) (file : Path) : List Violation :=
  (rule.run context).filter fun violation => violation.file = context.relative file

/-- A rule for single files reports in a file what it finds when it looks at that file, if every
candidate has a relative form of its own. -/
theorem runIn_eq {rule : Rule} {check : Context → SourceFile → List Violation}
    (hcheck : rule.check = .file check)
    (hown : ∀ file, ∀ violation ∈ check context (context.file file),
      violation.file = context.relative file)
    (hdistinct : (context.candidates.map context.relative).Nodup)
    (hfile : file ∈ context.candidates) :
    rule.runIn context file =
      if rule.isEnabled context.config then check context (context.file file) else [] := by
  rw [runIn, run, hcheck]
  dsimp only
  split
  · obtain ⟨before, after, hsplit⟩ := List.append_of_mem hfile
    rw [hsplit, List.map_append, List.map_cons, List.nodup_middle, List.nodup_cons,
      List.mem_append, not_or] at hdistinct
    obtain ⟨⟨hbefore, hafter⟩, -⟩ := hdistinct
    have hothers {others : List Path}
        (hnot : context.relative file ∉ others.map context.relative) :
        (others.flatMap fun path => check context (context.file path)).filter
          (fun violation => violation.file = context.relative file) = [] := by
      rw [List.filter_eq_nil_iff]
      intro violation hviolation
      obtain ⟨other, hmem, hfound⟩ := List.mem_flatMap.mp hviolation
      rw [hown other violation hfound, decide_eq_true_eq]
      exact fun heq => hnot (List.mem_map.mpr ⟨other, hmem, heq⟩)
    have hfound : (check context (context.file file)).filter
        (fun violation => violation.file = context.relative file) =
          check context (context.file file) := by
      rw [List.filter_eq_self]
      intro violation hviolation
      rw [hown file violation hviolation, decide_eq_true_eq]
    rw [hsplit, List.flatMap_append, List.flatMap_cons, List.filter_append, List.filter_append,
      hothers hbefore, hothers hafter, hfound, List.nil_append, List.append_nil]
  · rfl

/-! ## The three rules -/

/-- The violation reports a reference of the file, whose specifier begins there in a literal. -/
def LayerDirection.ReportsAt (context : Context) (file : Path) (offset : Nat)
    (violation : Violation) : Prop :=
  ∃ reference ∈ Reference.allIn (context.text file), ∃ literal : Literal (context.text file).toList,
    Reports context file reference violation ∧ reference.offset = offset ∧
      literal.offset = offset ∧ reference.specifier = String.ofList literal.inside

/-- The violation reports a call in the file, and the name of the hook begins there in the code. -/
def RouterHook.ReportsAt (context : Context) (file : Path) (offset : Nat)
    (violation : Violation) : Prop :=
  ∃ call ∈ HookCall.allIn (context.text file)
      (GlobSet.ofList context.config.routerHooks.routerModules),
    violation.message = message call.name ∧ call.offset = offset ∧
      Nonempty (CodePiece (context.text file).toList offset call.name.toList)

/-- The violation reports a declaration in the file, and its first keyword begins there in the
code. -/
def DeclarationPlacement.ReportsAt (context : Context) (file : Path) (offset : Nat)
    (violation : Violation) : Prop :=
  ∃ declaration ∈ Declaration.allIn (context.text file), ∃ opening ∈ declaration.kind.openings,
    violation.message = message ∧ declaration.offset = offset ∧
      Nonempty (CodePiece (context.text file).toList offset opening.toList)

theorem LayerDirection.standApart (hfile : file ∈ context.candidates) :
    StandApart (context.text file) (ReportsAt context file)
      (check context (context.file file)) := by
  cases hsource : file.isSource with
  | false =>
      rw [check_eq_nil hsource]
      exact standApart_nil _ _
  | true =>
      obtain ⟨source, hplace⟩ := Context.exists_placement?_of_mem_candidates hfile
      have hliteral {reference : Reference} (h : reference ∈ Reference.allIn (context.text file)) :=
        Reference.exists_literal_of_mem_byForm (Reference.mem_byForm_of_mem_allIn h)
      rw [check_eq_filterMap hsource hplace]
      refine standApart_filterMap (Reference.pairwise_allIn _) (fun reference hreference => ?_)
        fun reference hreference violation hviolation => ?_
      · obtain ⟨literal, hoffset, -⟩ := hliteral hreference
        rw [hoffset]
        exact literal.mem_boundaries
      · obtain ⟨literal, hoffset, hspecifier, -⟩ := hliteral hreference
        obtain ⟨violation', hviolation', hreports⟩ :=
          report?_of_isUpward hplace (isUpward_of_report? hplace hviolation)
        obtain rfl := Option.some.inj (hviolation.symm.trans hviolation')
        refine ⟨?_, reference, hreference, literal, hreports, rfl, hoffset.symm, hspecifier⟩
        obtain ⟨_, _, _, -, -, -, rfl⟩ := hreports
        rfl

theorem RouterHook.standApart (context : Context) (file : Path) :
    StandApart (context.text file) (ReportsAt context file)
      (check context (context.file file)) := by
  rw [check]
  split
  · exact standApart_nil _ _
  · dsimp only
    rw [← List.filterMap_eq_map]
    refine standApart_filterMap (HookCall.pairwise_allIn _ _) (fun call hcall => ?_)
      fun call hcall violation hviolation => ?_
    · obtain ⟨hne, ⟨code⟩⟩ := HookCall.exists_codePiece_of_mem_allIn hcall
      exact code.mem_boundaries hne
    · obtain ⟨-, hcode⟩ := HookCall.exists_codePiece_of_mem_allIn hcall
      obtain rfl := Option.some.inj hviolation
      exact ⟨rfl, call, hcall, rfl, rfl, hcode⟩

theorem DeclarationPlacement.standApart (context : Context) (file : Path) :
    StandApart (context.text file) (ReportsAt context file)
      (check context (context.file file)) := by
  rw [check]
  split
  · exact standApart_nil _ _
  · rw [← List.filterMap_eq_map]
    refine standApart_filterMap (Declaration.pairwise_allIn _) (fun declaration hmem => ?_)
      fun declaration hmem violation hviolation => ?_
    · obtain ⟨site⟩ := Declaration.exists_site hmem
      exact site.begins.mem_boundaries (Declaration.isNamePart_of_opening site.opening_mem).1
    · obtain ⟨site⟩ := Declaration.exists_site hmem
      obtain rfl := Option.some.inj hviolation
      exact ⟨Declaration.position_of_mem_allIn hmem, declaration, hmem, site.opening,
        site.opening_mem, rfl, rfl, ⟨site.begins⟩⟩

theorem file_eq_of_mem {α : Type} {condition : Prop} [Decidable condition] {things : List α}
    {report : α → Violation} {name : String} {violation : Violation}
    (hreport : ∀ thing, (report thing).file = name)
    (h : violation ∈ if condition then [] else things.map report) : violation.file = name := by
  split at h
  · cases h
  · obtain ⟨thing, -, rfl⟩ := List.mem_map.mp h
    exact hreport thing

theorem standApart_runIn {rule : Rule} {check : Context → SourceFile → List Violation}
    (hcheck : rule.check = .file check)
    (hown : ∀ file, ∀ violation ∈ check context (context.file file),
      violation.file = context.relative file)
    (hdistinct : (context.candidates.map context.relative).Nodup)
    (hfile : file ∈ context.candidates)
    (h : StandApart text reportsAt (check context (context.file file))) :
    StandApart text reportsAt (rule.runIn context file) := by
  rw [runIn_eq hcheck hown hdistinct hfile]
  split
  · exact h
  · exact standApart_nil _ _

/-- In each file below a layer the upward references, the calls of router hooks and the declarations
that are reported are at positions of their own, each rule's for itself. Each position is that of a
boundary inside the text, and there the specifier, the name of the hook or the keyword of the
declaration begins. -/
theorem run_stands_apart (context : Context)
    (hdistinct : (context.candidates.map context.relative).Nodup) {file : Path}
    (hfile : file ∈ context.candidates) :
    StandApart (context.text file) (LayerDirection.ReportsAt context file)
        (layerDirection.runIn context file) ∧
      StandApart (context.text file) (RouterHook.ReportsAt context file)
        (routerHook.runIn context file) ∧
      StandApart (context.text file) (DeclarationPlacement.ReportsAt context file)
        (declarationPlacement.runIn context file) := by
  refine ⟨standApart_runIn rfl (fun _ _ => ?_) hdistinct hfile (LayerDirection.standApart hfile),
    standApart_runIn rfl (fun _ _ => ?_) hdistinct hfile (RouterHook.standApart context file),
    standApart_runIn rfl (fun _ _ => ?_) hdistinct hfile
      (DeclarationPlacement.standApart context file)⟩
  all_goals exact file_eq_of_mem fun _ => rfl

/-- A state that calls a router hook twice on one line, and declares a type. -/
theorem run_stands_apart_of_cart :
    let file : Path := ⟨"/shop/_states/cart.ts"⟩
    let text := "import \x7buseRouter\x7d from 'next/navigation';\n" ++
      "useRouter(useRouter()); type A = 1"
    let context := ((Context.ofConfig ⟨"/shop"⟩ .standard).withEntries [file]
      [⟨"/shop"⟩]).withText file text
    (routerHook.runIn context file).map Violation.position = [⟨2, 1⟩, ⟨2, 11⟩] ∧
      (declarationPlacement.runIn context file).map Violation.position = [⟨2, 25⟩] ∧
      StandApart (context.text file) (LayerDirection.ReportsAt context file)
        (layerDirection.runIn context file) ∧
      StandApart (context.text file) (RouterHook.ReportsAt context file)
        (routerHook.runIn context file) ∧
      StandApart (context.text file) (DeclarationPlacement.ReportsAt context file)
        (declarationPlacement.runIn context file) := by
  intro file text context
  have hdistinct : (context.candidates.map context.relative).Nodup := by decide +kernel
  have hfile : file ∈ context.candidates := by decide +kernel
  exact ⟨by decide +kernel, by decide +kernel, run_stands_apart context hdistinct hfile⟩

end Rule

end LayerLint
