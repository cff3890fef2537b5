import LayerLint.Proofs.Layer
import LayerLint.Proofs.Path.Order

/-! # Candidates and their placements

Files are candidates if a segment of their relative form names a layer, and these are the files that
have a placement. What a placement shows agrees with the segments: the layer is the last one named,
it is global if no other is, and the keys of a module go together.
-/

namespace LayerLint

theorem Context.mem_files_withEntries {context : Context} {files directories : List Path}
    {file : Path} : file ∈ (context.withEntries files directories).files ↔ file ∈ files :=
  (Path.perm_sort files).mem_iff

theorem Context.mem_candidates_iff {context : Context} {file : Path} :
    file ∈ context.candidates ↔ file ∈ context.files ∧
      ∃ layer ∈ context.config.layerDirs, layer ∈ Path.segments (context.relative file) := by
  rw [candidates, List.mem_filter, inLayerScope, Layer.occursIn, List.any_eq_true]
  simp [and_comm]

theorem Context.mem_layerDirectories_iff {context : Context} {directory : Path} :
    directory ∈ context.layerDirectories ↔ directory ∈ context.directories ∧
      ∃ layer ∈ context.config.layerDirs, directory.fileName? = some layer := by
  rw [layerDirectories, List.mem_filter, Option.any_eq_true]
  simp [and_comm]

namespace Placement

variable {path : Path} {relative : String} {layers : List String} {ranks : RankTable}
variable {placement : Placement} {name : String}

/-- A placement is global if its layer is the only one that is named. -/
theorem isGlobal_iff (h : ofRelative? path relative layers ranks = some placement) :
    placement.isGlobal = true ↔ (Path.segments relative).countP layers.contains = 1 := by
  obtain ⟨outer, layer, inner, hsegments, hlayer, hinner, rfl⟩ := exists_of_ofRelative? h
  have hnamed : layers.contains layer = true := by simpa using hlayer
  have hnone : inner.countP layers.contains = 0 := by
    rw [List.countP_eq_zero]
    simpa using hinner
  rw [hsegments, List.countP_append, List.countP_cons_of_pos hnamed, hnone, around]
  simp [List.countP_eq_zero]

/-- With one layer there is one pair. -/
theorem pairs_of_isGlobal (h : ofRelative? path relative layers ranks = some placement)
    (hname : placement.moduleName = some name) (hglobal : placement.isGlobal = true) :
    Scope.pairs layers (Path.segments relative) = [(placement.layer, name)] := by
  obtain ⟨outer, layer, inner, hsegments, hlayer, hinner, rfl⟩ := exists_of_ofRelative? h
  have houter : ∀ segment ∈ outer, segment ∉ layers := by simpa [around] using hglobal
  cases inner with
  | nil => cases hname
  | cons next rest =>
      have hmodule : FileName.moduleName? next = some name := hname
      rw [hsegments, Scope.pairs_append_of_not_mem houter, Scope.pairs_cons_cons, if_pos hlayer,
        hmodule, Scope.pairs_eq_nil hinner]
      rfl

/-- The name and the keys of a module, which a placement has all or none of. -/
theorem keys_cases (h : ofRelative? path relative layers ranks = some placement) :
    (placement.moduleName = none ∧ placement.moduleKey = none ∧ placement.scopedKey = none) ∨
      ∃ name outer,
        Scope.pairs layers (Path.segments relative) = outer ++ [(placement.layer, name)] ∧
        placement.moduleName = some name ∧
        placement.moduleKey = some (Scope.pairText (placement.layer, name)) ∧
        placement.scopedKey = some (Scope.keyOf (outer ++ [(placement.layer, name)])) := by
  rw [moduleKey_eq_map_moduleName h, scopedKey_eq_map_moduleName h]
  cases hname : placement.moduleName with
  | none => exact .inl ⟨rfl, rfl, rfl⟩
  | some name =>
      have hlast := getLast?_pairs_of_moduleName h hname
      have hpairs := List.dropLast_append_getLast? _ (Option.mem_def.mpr hlast)
      exact .inr ⟨name, _, hpairs.symm, rfl, rfl, by rw [hpairs, Option.map_some]⟩

/-- A path has a placement exactly if a segment of its relative form names a layer, so that of the
walked files the candidates and no others have one. It shows the innermost layer, and is global
exactly if no other segment names one. The name and both keys of a module are there or none of them;
the scoped key is the module key or ends with it behind a slash, and is no more if the placement is
global. -/
theorem ofPath?_agrees_with_layers (path root : Path) (layers : List String) (ranks : RankTable) :
    (ofPath? path root layers ranks).isSome = Layer.occursIn layers (root.relativeTo path) ∧
      (∀ (context : Context) (files directories : List Path) (file : Path),
        let walked := context.withEntries files directories
        file ∈ walked.candidates ↔ file ∈ files ∧ (walked.placement? file).isSome = true) ∧
      ∀ placement, ofPath? path root layers ranks = some placement →
        Layer.innermost? layers (root.relativeTo path) = some placement.layer ∧
        (placement.isGlobal = true ↔
          (Path.segments (root.relativeTo path)).countP layers.contains = 1) ∧
        ((placement.moduleName.isSome ∧ placement.moduleKey.isSome ∧ placement.scopedKey.isSome) ∨
          (placement.moduleName = none ∧ placement.moduleKey = none ∧
            placement.scopedKey = none)) ∧
        (∀ key, placement.scopedKey = some key → ∃ own, placement.moduleKey = some own ∧
          (key = own ∨ ∃ outer, key = outer ++ "/" ++ own)) ∧
        (placement.isGlobal = true → placement.scopedKey = placement.moduleKey) := by
  refine ⟨isSome_ofRelative? _ _ _ _, ?_, ?_⟩
  · intro context files directories file walked
    have hplaced : (walked.placement? file).isSome = walked.inLayerScope (walked.relative file) :=
      isSome_ofRelative? _ _ _ _
    rw [Context.candidates, List.mem_filter, Context.mem_files_withEntries, hplaced]
  · intro placement h
    refine ⟨Layer.innermost?_eq_of_ofRelative? h, isGlobal_iff h, ?_⟩
    obtain ⟨hname, hown, hkey⟩ | ⟨name, outer, hpairs, hname, hown, hkey⟩ := keys_cases h
    · rw [hname, hown, hkey]
      refine ⟨.inr ⟨rfl, rfl, rfl⟩, ?_, fun _ => rfl⟩
      intro key hnone
      cases hnone
    · rw [hown, hkey]
      refine ⟨.inl ⟨by rw [hname]; rfl, rfl, rfl⟩, ?_, ?_⟩
      · rintro key hsome
        obtain rfl := Option.some.inj hsome
        refine ⟨_, rfl, ?_⟩
        by_cases houter : outer = []
        · rw [houter, List.nil_append, Scope.keyOf_singleton]
          exact .inl rfl
        · rw [Scope.keyOf_concat _ houter]
          exact .inr ⟨_, rfl⟩
      · intro hglobal
        rw [← hpairs, pairs_of_isGlobal h hname hglobal, Scope.keyOf_singleton]

/-- A state of a page is not global, and its scoped key has the page in front of the module key. -/
theorem ofPath?_agrees_with_page_and_state :
    let path : Path := ⟨"/r/_pages/home/_states/search.type.ts"⟩
    ∃ placement own, ofPath? path ⟨"/r"⟩ Layer.names Layer.ranks = some placement ∧
      Layer.innermost? Layer.names ((Path.mk "/r").relativeTo path) = some placement.layer ∧
      ¬ placement.isGlobal = true ∧ placement.moduleKey = some own ∧
      ("_pages/home/_states/search" = own ∨
        ∃ outer, "_pages/home/_states/search" = outer ++ "/" ++ own) := by
  intro path
  have hkey : (ofPath? path ⟨"/r"⟩ Layer.names Layer.ranks).bind scopedKey =
      some "_pages/home/_states/search" := by decide +kernel
  obtain ⟨placement, h, hkey⟩ := Option.bind_eq_some_iff.mp hkey
  obtain ⟨hlayer, hglobal, -, hkeys, -⟩ :=
    (ofPath?_agrees_with_layers path ⟨"/r"⟩ Layer.names Layer.ranks).2.2 placement h
  obtain ⟨own, hown, hends⟩ := hkeys _ hkey
  refine ⟨placement, own, h, hlayer, ?_, hown, hends⟩
  rw [hglobal]
  decide +kernel

end Placement

end LayerLint
