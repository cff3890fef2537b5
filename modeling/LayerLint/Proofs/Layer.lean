import LayerLint.Context.Basic
import LayerLint.Proofs.Placement

/-! # The innermost layer of a path

The layer of a path is the last of its segments that names one. A placement exists exactly for the
paths that have a layer, and shows that layer with its rank.
-/

namespace LayerLint

namespace Layer

variable {layers outer inner : List String} {layer : String}

theorem reverse_find?_eq (hlayer : layer ∈ layers)
    (hinner : ∀ segment ∈ inner, segment ∉ layers) :
    (outer ++ layer :: inner).reverse.find? layers.contains = some layer := by
  have hnone : inner.reverse.find? layers.contains = none := by
    rw [List.find?_eq_none]
    intro segment hmem
    simpa using hinner segment (List.mem_reverse.mp hmem)
  rw [List.reverse_append, List.reverse_cons, List.append_assoc, List.find?_append, hnone]
  simp [hlayer]

/-- A placement shows the innermost layer. -/
theorem innermost?_eq_of_ofRelative? {path : Path} {relative : String} {ranks : RankTable}
    {placement : Placement}
    (h : Placement.ofRelative? path relative layers ranks = some placement) :
    innermost? layers relative = some placement.layer := by
  obtain ⟨outer, layer, inner, hsegments, hlayer, hinner, rfl⟩ :=
    Placement.exists_of_ofRelative? h
  rw [innermost?, hsegments]
  exact reverse_find?_eq hlayer hinner

end Layer

namespace Context

variable {context : Context} {path : Path} {placement : Placement}

/-- The innermost layer of a path. -/
def layer? (context : Context) (path : Path) : Option String :=
  Layer.innermost? context.config.layerDirs (context.relative path)

/-- The rank of the innermost layer of a path, if it has one. -/
def rank? (context : Context) (path : Path) : Option Int :=
  (context.layer? path).bind (Layer.rank? context.ranks)

theorem layer?_eq_of_placement? (h : context.placement? path = some placement) :
    context.layer? path = some placement.layer ∧
      placement.rank = Layer.rank? context.ranks placement.layer := by
  refine ⟨Layer.innermost?_eq_of_ofRelative? h, ?_⟩
  obtain ⟨_, _, _, -, -, -, rfl⟩ := Placement.exists_of_ofRelative? h
  rfl

theorem rank?_eq_of_placement? (h : context.placement? path = some placement) :
    context.rank? path = placement.rank := by
  obtain ⟨hlayer, hrank⟩ := layer?_eq_of_placement? h
  rw [rank?, hlayer, hrank, Option.bind_some]

theorem exists_placement?_of_layer? {layer : String} (h : context.layer? path = some layer) :
    ∃ placement, context.placement? path = some placement := by
  rw [layer?, Layer.innermost?] at h
  rw [← Option.isSome_iff_exists, placement?, Placement.ofPath?, Placement.isSome_ofRelative?,
    Layer.occursIn, List.any_eq_true]
  exact ⟨layer, List.mem_reverse.mp (List.mem_of_find?_eq_some h), List.find?_some h⟩

theorem exists_placement?_of_mem_candidates (h : path ∈ context.candidates) :
    ∃ placement, context.placement? path = some placement := by
  rw [← Option.isSome_iff_exists, placement?, Placement.ofPath?, Placement.isSome_ofRelative?]
  exact (List.mem_filter.mp h).2

end Context

end LayerLint
