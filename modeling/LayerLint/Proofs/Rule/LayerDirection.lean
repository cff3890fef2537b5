import LayerLint.Proofs.ImportEdge
import LayerLint.Proofs.Layer
import LayerLint.Rule.LayerDirection
import Mathlib.Data.List.Chain
import Mathlib.Data.List.Forall2

/-! # Which references are upward

The rule reports one violation for each reference of a source text that leads to a layer of greater
rank, and none for any other. So where it reports nothing ranks never increase from a file to what
it refers to, nor along chains of references, and a chain that comes back to the layer where it
began has stayed in one rank.
-/

namespace LayerLint.Rule.LayerDirection

open Source (Reference)

variable {context : Context} {file : Path} {reference : Reference} {violation : Violation}

/-- The source texts below layers, each with every one of its references. -/
def references (context : Context) : List (Path × Reference) :=
  (context.candidates.filter Path.isSource).flatMap fun file =>
    (Reference.allIn (context.text file)).map (file, ·)

/-- The reference leads to a path in a layer of strictly greater rank than the file's own. -/
def IsUpward (context : Context) (file : Path) (reference : Reference) : Prop :=
  ∃ place source target,
    Specifier.resolve? reference.specifier file context.root context.aliases = some place ∧
      context.rank? file = some source ∧ context.rank? place = some target ∧ source < target

/-- The violation stands where the specifier does, and names it and both layers. -/
def Reports (context : Context) (file : Path) (reference : Reference) (violation : Violation) :
    Prop :=
  ∃ place source target,
    Specifier.resolve? reference.specifier file context.root context.aliases = some place ∧
      context.layer? file = some source ∧ context.layer? place = some target ∧
      violation = {
        rule := id
        file := context.relative file
        line := (Text.Position.ofOffset (context.text file).toList reference.offset).line
        column := (Text.Position.ofOffset (context.text file).toList reference.offset).column
        message := "Invalid upward reference from " ++ source ++ " to " ++ target ++ " via '" ++
          reference.specifier ++ "'." }

/-! ## One file -/

/-- What is reported for a reference, if its edge leads upward. -/
def report? (context : Context) (file : Path) (source : Placement) (reference : Reference) :
    Option Violation :=
  ((ImportEdge.ofReference? context file source (context.text file) reference).filter
    ImportEdge.isUpward).map fun edge =>
      (context.file file).violation id edge.position.line edge.position.column (message edge)

theorem isSource_file (context : Context) (file : Path) :
    (context.file file).isSource = file.isSource := by
  simp only [SourceFile.isSource, Context.file, SourceFile.ofPath, Path.isSource]
  cases file.fileName? with
  | none => decide
  | some name => rfl

theorem check_eq_filterMap {source : Placement} (hsource : file.isSource = true)
    (hplace : context.placement? file = some source) :
    check context (context.file file) =
      (Reference.allIn (context.text file)).filterMap (report? context file source) := by
  have hedges : ImportEdge.allFrom context (context.file file).path (context.file file).text =
      (Reference.allIn (context.text file)).filterMap
        (ImportEdge.ofReference? context file source (context.text file)) :=
    ImportEdge.allFrom_eq_filterMap hplace
  rw [check, isSource_file, hsource, hedges, List.filter_filterMap, List.map_filterMap]
  rfl

theorem check_eq_nil (h : file.isSource = false) : check context (context.file file) = [] := by
  rw [check, isSource_file, h]
  rfl

theorem isUpward_iff {edge : ImportEdge} : edge.isUpward = true ↔
    ∃ source target, edge.source.rank = some source ∧ edge.target.rank = some target ∧
      source < target := by
  unfold ImportEdge.isUpward
  cases edge.source.rank <;> cases edge.target.rank <;> simp

theorem message_eq (edge : ImportEdge) :
    message edge = "Invalid upward reference from " ++ edge.source.layer ++ " to " ++
      edge.target.layer ++ " via '" ++ edge.specifier ++ "'." := by
  have hvia : " via '" = " " ++ "via '" := by decide
  unfold message
  rw [hvia]
  simp only [String.append_assoc]
  rfl

/-- A reference that leads upward is reported, and no other is. -/
theorem report?_of_isUpward {source : Placement} (hplace : context.placement? file = some source)
    (h : IsUpward context file reference) :
    ∃ violation, report? context file source reference = some violation ∧
      Reports context file reference violation := by
  obtain ⟨place, rank, rank', hresolve, hrank, hrank', hlt⟩ := h
  obtain ⟨layer, hlayer, -⟩ := Option.bind_eq_some_iff.mp hrank'
  obtain ⟨target, htarget⟩ := Context.exists_placement?_of_layer? hlayer
  rw [Context.rank?_eq_of_placement? hplace] at hrank
  rw [Context.rank?_eq_of_placement? htarget] at hrank'
  have hupward : ImportEdge.isUpward ⟨source, target, reference.specifier, reference.kind,
      .ofOffset (context.text file).toList reference.offset⟩ = true :=
    isUpward_iff.mpr ⟨rank, rank', hrank, hrank', hlt⟩
  refine ⟨_, ?_, place, source.layer, target.layer, hresolve,
    (Context.layer?_eq_of_placement? hplace).1, (Context.layer?_eq_of_placement? htarget).1, rfl⟩
  simp only [report?, ImportEdge.ofReference?, hresolve, htarget, Option.bind_eq_bind,
    Option.bind_some, Option.pure_def, Option.filter_some, hupward, if_true, Option.map_some,
    message_eq]
  rfl

theorem isUpward_of_report? {source : Placement} (hplace : context.placement? file = some source)
    (h : report? context file source reference = some violation) :
    IsUpward context file reference := by
  obtain ⟨edge, hedge, -⟩ := Option.map_eq_some_iff.mp h
  obtain ⟨hedge, hupward⟩ := Option.filter_eq_some_iff.mp hedge
  obtain ⟨rank, rank', hrank, hrank', hlt⟩ := isUpward_iff.mp hupward
  simp only [ImportEdge.ofReference?, Option.bind_eq_bind, Option.bind_eq_some_iff,
    Option.pure_def, Option.some.injEq] at hedge
  obtain ⟨place, hresolve, target, htarget, rfl⟩ := hedge
  refine ⟨place, rank, rank', hresolve, ?_, ?_, hlt⟩
  · rw [Context.rank?_eq_of_placement? hplace]
    exact hrank
  · rw [Context.rank?_eq_of_placement? htarget]
    exact hrank'

open Classical in
theorem forall₂_reports {source : Placement} (hplace : context.placement? file = some source)
    (found : List Reference) :
    List.Forall₂ (fun reference violation => Reports context file reference violation)
      (found.filter fun reference => decide (IsUpward context file reference))
      (found.filterMap (report? context file source)) := by
  induction found with
  | nil => exact .nil
  | cons reference rest ih =>
      by_cases h : IsUpward context file reference
      · obtain ⟨violation, hviolation, hreports⟩ := report?_of_isUpward hplace h
        rw [List.filter_cons_of_pos (by simpa using h), List.filterMap_cons_some hviolation]
        exact .cons hreports ih
      · have hnone : report? context file source reference = none := by
          rw [Option.eq_none_iff_forall_ne_some]
          intro violation hviolation
          exact h (isUpward_of_report? hplace hviolation)
        rw [List.filter_cons_of_neg (by simpa using h), List.filterMap_cons_none hnone]
        exact ih

/-! ## All files -/

open Classical in
theorem forall₂_reports_run (h : Rule.layerDirection.isEnabled context.config = true) :
    List.Forall₂ (fun found violation => Reports context found.1 found.2 violation)
      ((references context).filter fun found => decide (IsUpward context found.1 found.2))
      (Rule.layerDirection.run context) := by
  have hrun : Rule.layerDirection.run context =
      context.candidates.flatMap fun file => check context (context.file file) := by
    rw [Rule.run, if_pos h]
    rfl
  have hplaced : ∀ file ∈ context.candidates, ∃ source, context.placement? file = some source :=
    fun file => Context.exists_placement?_of_mem_candidates
  rw [hrun, references]
  generalize context.candidates = files at hplaced ⊢
  induction files with
  | nil => exact .nil
  | cons file rest ih =>
      obtain ⟨⟨source, hsource⟩, hrest⟩ := List.forall_mem_cons.mp hplaced
      rw [List.flatMap_cons]
      by_cases hread : file.isSource = true
      · rw [List.filter_cons_of_pos hread, List.flatMap_cons, List.filter_append]
        apply List.rel_append _ (ih hrest)
        rw [check_eq_filterMap hread hsource, List.filter_map, List.forall₂_map_left_iff]
        exact forall₂_reports hsource _
      · rw [List.filter_cons_of_neg hread, check_eq_nil (by simpa using hread), List.nil_append]
        exact ih hrest

/-! ## Chains of references -/

/-- A source text below a layer, with one of its edges. -/
structure Link (context : Context) where
  file : Path
  edge : ImportEdge
  file_mem : file ∈ context.candidates
  isSource : file.isSource = true
  edge_mem : edge ∈ ImportEdge.allFrom context file (context.text file)

namespace Link

variable {first second : Link context}

/-- The second file is in the layer that the first one's edge leads to. -/
def LeadsTo (first second : Link context) : Prop :=
  context.layer? second.file = some first.edge.target.layer

/-- The ranks of the file's own layer and of the layer that the edge leads to. -/
def ranks (link : Link context) : List (Option Int) :=
  [link.edge.source.rank, link.edge.target.rank]

/-- The rank of a layer does not depend on the path that lies in it. -/
theorem LeadsTo.rank_eq (h : first.LeadsTo second) :
    second.edge.source.rank = first.edge.target.rank := by
  obtain ⟨place, htarget⟩ := ImportEdge.exists_placement?_target first.edge_mem
  obtain ⟨hlayer, hrank⟩ :=
    Context.layer?_eq_of_placement? (ImportEdge.placement?_source second.edge_mem)
  rw [LeadsTo, hlayer, Option.some.injEq] at h
  rw [hrank, h, (Context.layer?_eq_of_placement? htarget).2]

variable (hrun : Rule.layerDirection.run context = [])
  (henabled : Rule.layerDirection.isEnabled context.config = true)

include hrun henabled

/-- Where nothing is reported no edge leads to a greater rank. -/
theorem rank_le (link : Link context) {source target : Int}
    (hsource : link.edge.source.rank = some source)
    (htarget : link.edge.target.rank = some target) : target ≤ source := by
  rw [← Int.not_lt]
  intro hlt
  have hcheck : check context (context.file link.file) = [] := by
    rw [Rule.run, if_pos henabled] at hrun
    exact List.flatMap_eq_nil_iff.mp hrun link.file link.file_mem
  rw [check, isSource_file, link.isSource] at hcheck
  simp only [Bool.not_true, Bool.false_eq_true, if_false, List.map_eq_nil_iff,
    List.filter_eq_nil_iff] at hcheck
  exact hcheck link.edge link.edge_mem (isUpward_iff.mpr ⟨source, target, hsource, htarget, hlt⟩)

/-- Along a chain of links each rank is at least the next one. -/
theorem isChain_ranks {links : List (Link context)} {trail : List Int}
    (hchain : links.IsChain LeadsTo) (hranks : links.flatMap ranks = trail.map some) :
    trail.IsChain (· ≥ ·) := by
  induction links generalizing trail with
  | nil =>
      obtain rfl : trail = [] := by simpa using hranks.symm
      exact .nil
  | cons link rest ih =>
      obtain ⟨source, target, tail, rfl, hsource, htarget, htail⟩ :
          ∃ source target tail, trail = source :: target :: tail ∧
            link.edge.source.rank = some source ∧ link.edge.target.rank = some target ∧
            rest.flatMap ranks = tail.map some := by
        match trail with
        | [] | [_] => simp [ranks] at hranks
        | source :: target :: tail =>
            simp only [List.flatMap_cons, ranks, List.cons_append, List.nil_append, List.map_cons,
              List.cons.injEq] at hranks
            exact ⟨source, target, tail, rfl, hranks.1, hranks.2.1, hranks.2.2⟩
      have hstep := link.rank_le hrun henabled hsource htarget
      rw [List.isChain_cons_cons]
      refine ⟨hstep, ?_⟩
      cases rest with
      | nil =>
          obtain rfl : tail = [] := by simpa using htail.symm
          exact .singleton _
      | cons next rest =>
          obtain ⟨hnext, hchain⟩ := List.isChain_cons_cons.mp hchain
          -- the next file has the rank that this edge leads to
          cases tail with
          | nil => simp [ranks] at htail
          | cons rank tail =>
              have hsame : some rank = some target := by
                rw [← htarget, ← hnext.rank_eq]
                simpa [ranks] using (congrArg List.head? htail).symm
              rw [List.isChain_cons_cons]
              exact ⟨Int.le_of_eq (Option.some.inj hsame), ih hchain htail⟩

omit hrun henabled in
theorem head?_eq_getLast? {links : List (Link context)} {trail : List Int}
    (hranks : links.flatMap ranks = trail.map some) {first last : Link context}
    (hfirst : links.head? = some first) (hlast : links.getLast? = some last)
    (hcycle : last.LeadsTo first) : trail.head? = trail.getLast? := by
  have hhead : (trail.map some).head? = some first.edge.source.rank := by
    obtain ⟨rest, rfl⟩ := List.head?_eq_some_iff.mp hfirst
    rw [← hranks]
    rfl
  have htail : (trail.map some).getLast? = some last.edge.target.rank := by
    obtain ⟨rest, rfl⟩ := List.getLast?_eq_some_iff.mp hlast
    rw [← hranks]
    simp [ranks]
  rw [← hcycle.rank_eq, ← hhead, List.head?_map, List.getLast?_map] at htail
  exact (Option.map_injective (fun _ _ => Option.some.inj) htail).symm

end Link

theorem eq_of_pairwise_ge {ranks : List Int} (h : ranks.Pairwise (· ≥ ·))
    (hends : ranks.head? = ranks.getLast?) {rank other : Int} (hrank : rank ∈ ranks)
    (hother : other ∈ ranks) : rank = other := by
  cases ranks with
  | nil => cases hrank
  | cons first rest =>
      obtain ⟨init, hinit⟩ := List.getLast?_eq_some_iff.mp hends.symm
      -- every rank lies between the first one and the last one, which are the same
      have hsame : ∀ rank ∈ first :: rest, rank = first := by
        intro rank hmem
        have hle : rank ≤ first := by
          rcases List.mem_cons.mp hmem with rfl | hmem
          · exact Int.le_refl _
          · exact (List.pairwise_cons.mp h).1 rank hmem
        have hge : first ≤ rank := by
          rw [hinit] at h hmem
          rcases List.mem_append.mp hmem with hmem | hmem
          · exact (List.pairwise_append.mp h).2.2 rank hmem first (List.mem_singleton_self _)
          · exact Int.le_of_eq (List.mem_singleton.mp hmem).symm
        exact Int.le_antisymm hle hge
      rw [hsame rank hrank, hsame other hother]

open Classical in
/-- The violations are those of the references that lead upward, one for each. If there are none,
ranks never increase along a chain of links, and they are all the same in one that comes back to
the layer of its first file. -/
theorem run_reports_upward (context : Context)
    (henabled : Rule.layerDirection.isEnabled context.config = true) :
    List.Forall₂ (fun found violation => Reports context found.1 found.2 violation)
        ((references context).filter fun found => decide (IsUpward context found.1 found.2))
        (Rule.layerDirection.run context) ∧
      (Rule.layerDirection.run context = [] →
        ∀ (links : List (Link context)) (ranks : List Int), links.IsChain Link.LeadsTo →
          links.flatMap Link.ranks = ranks.map some →
            ranks.Pairwise (· ≥ ·) ∧
              ∀ first last, links.head? = some first → links.getLast? = some last →
                last.LeadsTo first → ∀ rank ∈ ranks, ∀ other ∈ ranks, rank = other) := by
  refine ⟨forall₂_reports_run henabled, ?_⟩
  intro hrun links ranks hchain hranks
  have hpairwise : ranks.Pairwise (· ≥ ·) :=
    (Link.isChain_ranks hrun henabled hchain hranks).pairwise
  refine ⟨hpairwise, ?_⟩
  intro first last hfirst hlast hcycle rank hrank other hother
  exact eq_of_pairwise_ge hpairwise (Link.head?_eq_getLast? hranks hfirst hlast hcycle) hrank hother

/-- Two components that refer to each other, and a utility that refers to one of them. -/
def components (utilities : List Path) : Context :=
  let first : Path := ⟨"/_components/a.ts"⟩
  let second : Path := ⟨"/_components/b.ts"⟩
  { Context.ofConfig ⟨"/"⟩ .standard with
    files := [first, second] ++ utilities
    texts := [(first.key, "import'./b'"), (second.key, "import'./a'")] ++
      utilities.map fun path => (path.key, "import'/_components/a'") }

/-- The link of a file's first edge. -/
def Link.ofFirst (file : Path) (file_mem : file ∈ context.candidates)
    (isSource : file.isSource = true)
    (hedges : ImportEdge.allFrom context file (context.text file) ≠ []) : Link context :=
  ⟨file, (ImportEdge.allFrom context file (context.text file)).head hedges, file_mem, isSource,
    List.head_mem hedges⟩

open Classical in
/-- The components stay in one rank, and only the utility's reference is reported. -/
theorem run_reports_upward_of_components :
    Rule.layerDirection.isEnabled (components []).config = true ∧
      Rule.layerDirection.run (components []) = [] ∧
      (∃ first second : Link (components []), first.LeadsTo second ∧ second.LeadsTo first ∧
        [first, second].flatMap Link.ranks = [2, 2, 2, 2].map some ∧
        ([2, 2, 2, 2] : List Int).Pairwise (· ≥ ·)) ∧
      ((references (components [⟨"/_utils/c.ts"⟩])).filter fun found => decide
        (IsUpward (components [⟨"/_utils/c.ts"⟩]) found.1 found.2)).length = 1 := by
  have henabled : Rule.layerDirection.isEnabled (components []).config = true := by decide +kernel
  have hrun : Rule.layerDirection.run (components []) = [] := by decide +kernel
  refine ⟨henabled, hrun, ?_, ?_⟩
  · let first : Link (components []) := .ofFirst ⟨"/_components/a.ts"⟩ (by decide +kernel)
      (by decide +kernel) (by rw [← List.length_pos_iff]; decide +kernel)
    let second : Link (components []) := .ofFirst ⟨"/_components/b.ts"⟩ (by decide +kernel)
      (by decide +kernel) (by rw [← List.length_pos_iff]; decide +kernel)
    have hfirst : first.LeadsTo second := by unfold Link.LeadsTo; decide +kernel
    have hsecond : second.LeadsTo first := by unfold Link.LeadsTo; decide +kernel
    have hranks : [first, second].flatMap Link.ranks = [2, 2, 2, 2].map some := by decide +kernel
    have hchain : [first, second].IsChain Link.LeadsTo :=
      List.isChain_cons_cons.mpr ⟨hfirst, .singleton _⟩
    exact ⟨first, second, hfirst, hsecond, hranks,
      ((run_reports_upward (components []) henabled).2 hrun _ _ hchain hranks).1⟩
  · have hreports := (run_reports_upward (components [⟨"/_utils/c.ts"⟩])
      (by decide +kernel)).1.length_eq
    rw [hreports]
    decide +kernel

end LayerLint.Rule.LayerDirection
