import LayerLint.ImportEdge

/-! # Edges and their context

An edge ends at a placement of its context. The edges of a file depend on the file, not on what
else was walked.
-/

namespace LayerLint.ImportEdge

variable {context : Context} {path : Path} {text : String} {edge : ImportEdge}

theorem isDownward_iff : edge.isDownward = true ↔
    ∃ source target, edge.source.rank = some source ∧ edge.target.rank = some target ∧
      target < source := by
  unfold isDownward
  cases edge.source.rank <;> cases edge.target.rank <;> simp

theorem allFrom_eq_filterMap {source : Placement} (h : context.placement? path = some source) :
    allFrom context path text =
      (Source.Reference.allIn text).filterMap (ofReference? context path source text) := by
  unfold allFrom
  rw [h]

/-- An edge comes from one of the references of the text. -/
theorem exists_of_mem_allFrom (h : edge ∈ allFrom context path text) :
    ∃ reference ∈ Source.Reference.allIn text, ∃ source place target,
      context.placement? path = some source ∧
      Specifier.resolve? reference.specifier path context.root context.aliases = some place ∧
      context.placement? place = some target ∧
      edge = ⟨source, target, reference.specifier, reference.kind,
        .ofOffset text.toList reference.offset⟩ := by
  unfold allFrom at h
  split at h
  next => cases h
  next source hsource =>
    obtain ⟨reference, hreference, hedge⟩ := List.mem_filterMap.mp h
    simp only [ofReference?, Option.bind_eq_bind, Option.bind_eq_some_iff, Option.pure_def,
      Option.some.injEq] at hedge
    obtain ⟨place, hplace, target, htarget, hedge⟩ := hedge
    exact ⟨reference, hreference, source, place, target, hsource, hplace, htarget, hedge.symm⟩

theorem placement?_source (h : edge ∈ allFrom context path text) :
    context.placement? path = some edge.source := by
  obtain ⟨reference, -, source, place, target, hsource, -, -, rfl⟩ := exists_of_mem_allFrom h
  exact hsource

theorem exists_placement?_target (h : edge ∈ allFrom context path text) :
    ∃ place, context.placement? place = some edge.target := by
  obtain ⟨reference, -, source, place, target, -, -, htarget, rfl⟩ := exists_of_mem_allFrom h
  exact ⟨place, htarget⟩

theorem ofReference?_files (context : Context) (files : List Path) (path : Path)
    (source : Placement) (text : String) :
    ofReference? { context with files } path source text =
      ofReference? context path source text := by
  funext reference
  unfold ofReference?
  dsimp only [Context.placement?]

theorem allFrom_files (context : Context) (files : List Path) (path : Path) (text : String) :
    allFrom { context with files } path text = allFrom context path text := by
  unfold allFrom
  dsimp only [Context.placement?]
  cases Placement.ofPath? path context.root context.config.layerDirs context.ranks with
  | none => rfl
  | some source =>
      dsimp only
      rw [ofReference?_files]

end LayerLint.ImportEdge
