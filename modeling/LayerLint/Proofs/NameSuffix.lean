import LayerLint.Proofs.Path.LastComponent
import LayerLint.Proofs.Placement

/-! # Modules named without a suffix

Imports name a module without the suffixes of its file, so that they lead to paths where no file is.
Their place among the layers is that of the file all the same: a suffix begins with a dot, and the
name of a module ends at the first dot.
-/

namespace LayerLint

/-- A dot that a suffix begins with ends the module's name, if no earlier dot does. -/
theorem FileName.moduleName?_append {suffix : String} (hdot : Text.beginsWith "." suffix = true)
    (name : String) : moduleName? (name ++ suffix) = moduleName? name := by
  obtain ⟨rest, rfl⟩ := Text.beginsWith_iff.mp hdot
  have htoken : (name ++ ("." ++ rest)).toList.takeWhile (· != '.') =
      name.toList.takeWhile (· != '.') := by
    rw [String.toList_append]
    induction name.toList with
    | nil => simp
    | cons c chars ih => rw [List.cons_append, List.takeWhile_cons, List.takeWhile_cons, ih]
  simp only [moduleName?, htoken]

namespace Scope

variable {layers : List String}

/-- What the last segment adds to the pairs is no more than its module's name. -/
theorem pairs_concat_congr {next next' : String}
    (h : FileName.moduleName? next' = FileName.moduleName? next) (segments : List String) :
    pairs layers (segments ++ [next']) = pairs layers (segments ++ [next]) := by
  induction segments with
  | nil => rfl
  | cons first rest ih =>
      cases rest with
      | nil =>
          rw [List.singleton_append, List.singleton_append, pairs_cons_cons, pairs_cons_cons, h]
          rfl
      | cons second rest =>
          simp only [List.cons_append, pairs_cons_cons] at ih ⊢
          rw [ih]

end Scope

namespace Placement

variable {path other root : Path} {relative relative' : String} {layers : List String}
variable {ranks : RankTable}

/-- Of the last segment, unless it is a layer, a placement keeps the module's name alone. -/
theorem ofRelative?_of_concat {front : List String} {next next' : String}
    (hsegments : Path.segments relative = front ++ [next])
    (hsegments' : Path.segments relative' = front ++ [next'])
    (hnext : next ∉ layers) (hnext' : next' ∉ layers)
    (hname : FileName.moduleName? next' = FileName.moduleName? next) :
    ofRelative? other relative' layers ranks =
      (ofRelative? path relative layers ranks).map fun placement =>
        { placement with path := other, relativePath := relative' } := by
  by_cases hany : ∃ segment ∈ front, segment ∈ layers
  · obtain ⟨outer, layer, inner, rfl, hlayer, hinner⟩ := Layer.exists_innermost hany
    have hbehind (segment : String) (hsegment : segment ∉ layers) :
        ∀ other ∈ inner ++ [segment], other ∉ layers := by
      rw [List.forall_mem_append, List.forall_mem_singleton]
      exact ⟨hinner, hsegment⟩
    have hmodule : (inner ++ [next']).head?.bind FileName.moduleName? =
        (inner ++ [next]).head?.bind FileName.moduleName? := by
      cases inner with
      | nil => exact hname
      | cons => rfl
    have hscopes : Scope.along layers (Path.segments relative') =
        Scope.along layers (Path.segments relative) := by
      rw [hsegments, hsegments', Scope.along, Scope.along, Scope.pairs_concat_congr hname]
    rw [List.append_assoc, List.cons_append] at hsegments hsegments'
    rw [ofRelative?_of_segments hsegments hlayer (hbehind next hnext),
      ofRelative?_of_segments hsegments' hlayer (hbehind next' hnext'), Option.map_some, around,
      around, hmodule, hscopes]
  · have hnone (text segment : String) (htext : Path.segments text = front ++ [segment])
        (hsegment : segment ∉ layers) (path : Path) :
        ofRelative? path text layers ranks = none := by
      apply ofRelative?_eq_none
      rw [htext, List.forall_mem_append, List.forall_mem_singleton]
      exact ⟨fun segment hmem hlayer => hany ⟨segment, hmem, hlayer⟩, hsegment⟩
    rw [hnone relative next hsegments hnext, hnone relative' next' hsegments' hnext',
      Option.map_none]

/-- Two placements agree in all that rules ask about a module. -/
structure SameModule (first second : Placement) : Prop where
  layer_eq : first.layer = second.layer
  rank_eq : first.rank = second.rank
  isGlobal_eq : first.isGlobal = second.isGlobal
  moduleName_eq : first.moduleName = second.moduleName
  moduleKey_eq : first.moduleKey = second.moduleKey
  scopedKey_eq : first.scopedKey = second.scopedKey
  containerScope_eq : first.containerScope? = second.containerScope?
  pageScope_eq : first.pageScope? = second.pageScope?
  consumer_eq : first.consumer? = second.consumer?

/-- Below the root, a path without backslashes and the path with a suffix behind its last component
have both no placement or placements of one module, if neither last component is a layer. A suffix
with a slash makes no component, so that there is no such path. -/
theorem sameModule_of_suffix (layers : List String) (ranks : RankTable)
    {above : List Path.Component} {last : Path.Component} {suffix : String}
    (hnormal : path.normalize.components = path.components) (hbelow : root.IsBelow path)
    (hclean : ∀ component ∈ path.components, '\\' ∉ component.text.toList)
    (hdot : Text.beginsWith "." suffix = true) (hbackslash : '\\' ∉ suffix.toList)
    (hpath : path.components = above ++ [last])
    (hother : other.components = above ++ [.name (last.text ++ suffix)])
    (hlayer : last.text ∉ layers) (hlayer' : last.text ++ suffix ∉ layers) :
    Option.Rel SameModule (ofPath? path root layers ranks) (ofPath? other root layers ranks) := by
  have hroot : last ≠ .root := by
    -- a name contains no slash
    rintro rfl
    have hmem : .name ("/" ++ suffix) ∈ other.components :=
      hother ▸ List.mem_append_right _ List.mem_cons_self
    exact (Path.isName_of_mem_components hmem).2.2.2 (by simp)
  have hcomponents : path.normalComponents = above ++ [last] := by
    rw [← Path.components_normalize, hnormal, hpath]
  have hcomponents' := Path.normalComponents_of_renamed hnormal hpath hroot hother
  obtain ⟨front, rfl⟩ := hbelow.exists_front hcomponents
  rw [List.append_assoc] at hcomponents hcomponents'
  rw [hpath, List.append_assoc] at hclean
  have hbehind := (List.forall_mem_append.mp hclean).2
  have hbehind' : ∀ component ∈ front ++ [.name (last.text ++ suffix)],
      '\\' ∉ component.text.toList := by
    rw [List.forall_mem_append, List.forall_mem_singleton] at hbehind ⊢
    refine ⟨hbehind.1, ?_⟩
    rw [Path.Component.text, String.toList_append, List.mem_append, not_or]
    exact ⟨hbehind.2, hbackslash⟩
  have hplaced : ofRelative? other (root.relativeTo other) layers ranks =
      (ofRelative? path (root.relativeTo path) layers ranks).map fun placement =>
        { placement with path := other, relativePath := root.relativeTo other } :=
    ofRelative?_of_concat (Path.segments_relativeTo_of_concat hcomponents hroot hbehind)
      (Path.segments_relativeTo_of_concat hcomponents' (by simp) hbehind') hlayer hlayer'
      (FileName.moduleName?_append hdot last.text)
  rw [ofPath?, ofPath?, hplaced]
  cases ofRelative? path (root.relativeTo path) layers ranks with
  | none => exact .none
  | some placement => exact .some ⟨rfl, rfl, rfl, rfl, rfl, rfl, rfl, rfl, rfl⟩

/-- The import of a state leads to the module of the file with its types. -/
theorem sameModule_of_type_file :
    let path : Path := ⟨"/r/_pages/home/_states/search"⟩
    let file : Path := ⟨path.text ++ ".type.ts"⟩
    (ofPath? path ⟨"/r"⟩ Layer.names Layer.ranks).isSome = true ∧
      Option.Rel SameModule (ofPath? path ⟨"/r"⟩ Layer.names Layer.ranks)
        (ofPath? file ⟨"/r"⟩ Layer.names Layer.ranks) := by
  intro path file
  let above : List Path.Component :=
    [.root, .name "r", .name "_pages", .name "home", .name "_states"]
  have hpath : path.components = above ++ [.name "search"] := by decide +kernel
  have hfile : file.components = above ++ [.name "search.type.ts"] :=
    Path.components_append_suffix (by decide) (by decide +kernel) hpath (by decide) (by decide)
  refine ⟨by decide +kernel, ?_⟩
  have hdot : Text.beginsWith "." ".type.ts" = true := by decide
  refine sameModule_of_suffix Layer.names Layer.ranks (by decide +kernel) ?_ ?_ hdot (by decide)
    hpath hfile (by decide) (by decide)
  · exact ⟨[.name "_pages", .name "home", .name "_states", .name "search"], by decide,
      by decide +kernel⟩
  · rw [hpath]
    decide

end Placement

end LayerLint
