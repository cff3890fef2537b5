import LayerLint.Placement
import LayerLint.Proofs.Text.Pieces

/-! # Scoped keys

A scoped key spells out the layer and module pairs along a path. No part of a pair contains a
slash, so the key determines the pairs, and with them the layer that its module is in.
-/

namespace LayerLint

theorem Path.slash_not_mem_of_mem_segments {text segment : String}
    (h : segment ∈ Path.segments text) : '/' ∉ segment.toList := by
  intro hslash
  have hcut := Text.eq_false_of_mem_pieces (List.mem_filter.mp h).1 hslash
  simp at hcut

theorem FileName.mem_of_mem_moduleName? {name module : String} {c : Char}
    (h : moduleName? name = some module) (hc : c ∈ module.toList) : c ∈ name.toList := by
  simp only [moduleName?, Option.ite_none_left_eq_some, Option.some.injEq] at h
  obtain ⟨-, rfl⟩ := h
  exact (List.takeWhile_subset _) (by simpa using hc)

theorem Layer.innermostEnd?_eq {layers outer inner : List String} {layer : String}
    (hlayer : layer ∈ layers) (hinner : ∀ segment ∈ inner, segment ∉ layers) :
    innermostEnd? layers (outer ++ layer :: inner) = some (outer.length + 1) := by
  have hnone : inner.reverse.findIdx? layers.contains = none := by
    rw [List.findIdx?_eq_none_iff]
    intro segment hmem
    simpa using hinner segment (List.mem_reverse.mp hmem)
  have hcontains : layers.contains layer = true := by simpa using hlayer
  rw [innermostEnd?, List.reverse_append, List.reverse_cons, List.append_assoc,
    List.findIdx?_append, hnone, List.singleton_append, List.findIdx?_cons, hcontains]
  simp only [if_true, Option.none_or, Option.map_some, List.length_append, List.length_cons,
    List.length_reverse, Option.some.injEq]
  omega

theorem Layer.innermostEnd?_eq_none {layers segments : List String}
    (h : ∀ segment ∈ segments, segment ∉ layers) : innermostEnd? layers segments = none := by
  rw [innermostEnd?, Option.map_eq_none_iff, List.findIdx?_eq_none_iff]
  intro segment hmem
  simpa using h segment (List.mem_reverse.mp hmem)

/-- Of the segments that name a layer, one is the innermost. -/
theorem Layer.exists_innermost {layers segments : List String}
    (h : ∃ segment ∈ segments, segment ∈ layers) :
    ∃ outer layer inner, segments = outer ++ layer :: inner ∧ layer ∈ layers ∧
      ∀ segment ∈ inner, segment ∉ layers := by
  induction segments with
  | nil => simp at h
  | cons first rest ih =>
      by_cases hrest : ∃ segment ∈ rest, segment ∈ layers
      · obtain ⟨outer, layer, inner, rfl, hlayer, hinner⟩ := ih hrest
        exact ⟨first :: outer, layer, inner, rfl, hlayer, hinner⟩
      · have hfirst : first ∈ layers := by
          obtain ⟨segment, hmem, hlayer⟩ := h
          rcases List.mem_cons.mp hmem with rfl | hmem
          · exact hlayer
          · exact (hrest ⟨segment, hmem, hlayer⟩).elim
        exact ⟨[], first, rest, rfl, hfirst, fun segment hmem hlayer =>
          hrest ⟨segment, hmem, hlayer⟩⟩

namespace Scope

/-- The layers and modules of a list of pairs, in order. -/
def parts : List (String × String) → List String
  | [] => []
  | pair :: rest => pair.1 :: pair.2 :: parts rest

/-- The key of a list of pairs. -/
def keyOf (trail : List (String × String)) : String :=
  Text.joinWith "/" (parts trail)

variable {layers segments : List String} {trail : List (String × String)}

@[simp] theorem parts_nil : parts [] = [] := rfl

@[simp] theorem parts_cons (pair : String × String) :
    parts (pair :: trail) = pair.1 :: pair.2 :: parts trail := rfl

@[simp] theorem parts_append (first second : List (String × String)) :
    parts (first ++ second) = parts first ++ parts second := by
  induction first with
  | nil => rfl
  | cons pair rest ih => simp [ih]

theorem parts_eq_nil_iff : parts trail = [] ↔ trail = [] := by
  cases trail <;> simp

theorem parts_injective {first second : List (String × String)} (h : parts first = parts second) :
    first = second := by
  induction first generalizing second with
  | nil => exact (parts_eq_nil_iff.mp h.symm).symm
  | cons pair rest ih =>
      cases second with
      | nil => cases h
      | cons other others =>
          simp only [parts_cons, List.cons.injEq] at h
          obtain ⟨hlayer, hmodule, hrest⟩ := h
          rw [ih hrest, Prod.ext hlayer hmodule]

theorem keyOf_singleton (pair : String × String) : keyOf [pair] = pairText pair := by
  simp [keyOf, pairText, Text.joinWith, String.intercalate_cons_cons, String.append_assoc]

theorem keyOf_concat (pair : String × String) (hne : trail ≠ []) :
    keyOf (trail ++ [pair]) = keyOf trail ++ "/" ++ pairText pair := by
  have hparts : parts trail ≠ [] := fun h => hne (parts_eq_nil_iff.mp h)
  rw [keyOf, parts_append, Text.joinWith_append hparts (by simp), ← keyOf_singleton]
  rfl

theorem isEmpty_keyOf (trail : List (String × String)) :
    (keyOf trail).isEmpty = trail.isEmpty := by
  cases trail with
  | nil => rfl
  | cons pair rest => simp [keyOf, Text.joinWith, String.intercalate_cons_cons]

/-- Pairs whose parts contain no slash are told apart by their keys. -/
theorem keyOf_injective {first second : List (String × String)}
    (hfirst : ∀ part ∈ parts first, '/' ∉ part.toList)
    (hsecond : ∀ part ∈ parts second, '/' ∉ part.toList)
    (heq : keyOf first = keyOf second) : first = second := by
  have hempty : first.isEmpty = second.isEmpty := by
    rw [← isEmpty_keyOf, heq, isEmpty_keyOf]
  by_cases hnil : first = []
  · subst hnil
    simpa using hempty.symm
  · have hnil' : second ≠ [] := fun h => hnil (by simpa [h] using hempty)
    exact parts_injective (Text.joinWith_injective (mt parts_eq_nil_iff.mp hnil)
      (mt parts_eq_nil_iff.mp hnil') hfirst hsecond heq)

/-! ## The scopes of a path -/

theorem nest_cons (outer : List (String × String)) (pair : String × String) :
    nest (keyOf outer) (pair :: trail) =
      ⟨pair.1, keyOf (outer ++ [pair])⟩ :: nest (keyOf (outer ++ [pair])) trail := by
  rw [nest]
  by_cases houter : outer = []
  · subst houter
    simp [isEmpty_keyOf, keyOf_singleton]
  · simp [isEmpty_keyOf, houter, keyOf_concat]

theorem getLast?_nest (outer : List (String × String)) :
    (nest (keyOf outer) trail).getLast? =
      trail.getLast?.map fun pair => ⟨pair.1, keyOf (outer ++ trail)⟩ := by
  induction trail generalizing outer with
  | nil => rfl
  | cons pair rest ih =>
      rw [nest_cons, List.getLast?_cons, ih, List.getLast?_cons]
      cases hlast : rest.getLast? with
      | none =>
          obtain rfl : rest = [] := by simpa using hlast
          rfl
      | some last => simp

theorem getLast?_along (layers segments : List String) :
    (along layers segments).getLast? = (pairs layers segments).getLast?.map fun pair =>
      ⟨pair.1, keyOf (pairs layers segments)⟩ :=
  getLast?_nest []

theorem pairs_cons_cons (layer next : String) (rest : List String) :
    pairs layers (layer :: next :: rest) =
      (if layer ∈ layers then ((FileName.moduleName? next).map (layer, ·)).toList else []) ++
        pairs layers (next :: rest) := by
  rw [pairs]
  cases hname : FileName.moduleName? next <;> by_cases hlayer : layer ∈ layers <;> simp [hlayer]

theorem slash_not_mem_of_mem_pairs (h : ∀ segment ∈ segments, '/' ∉ segment.toList) :
    ∀ part ∈ parts (pairs layers segments), '/' ∉ part.toList := by
  induction segments with
  | nil => simp [pairs]
  | cons layer rest ih =>
      obtain ⟨hlayer, hrest⟩ := List.forall_mem_cons.mp h
      cases rest with
      | nil => simp [pairs]
      | cons next rest =>
          rw [pairs_cons_cons, parts_append, List.forall_mem_append]
          refine ⟨?_, ih hrest⟩
          intro part hpart
          split at hpart
          next =>
            cases hname : FileName.moduleName? next with
            | none => simp [hname] at hpart
            | some module =>
                have hmodule : '/' ∉ module.toList := fun hslash =>
                  hrest next List.mem_cons_self (FileName.mem_of_mem_moduleName? hname hslash)
                simp only [hname, Option.map_some, Option.toList_some, parts_cons, parts_nil,
                  List.mem_cons, List.not_mem_nil, or_false] at hpart
                rcases hpart with rfl | rfl
                · exact hlayer
                · exact hmodule
          next => cases hpart

/-- Segments in front that name no layer make no pairs. -/
theorem pairs_append_of_not_mem (h : ∀ segment ∈ segments, segment ∉ layers) (rest : List String) :
    pairs layers (segments ++ rest) = pairs layers rest := by
  induction segments with
  | nil => rfl
  | cons first others ih =>
      obtain ⟨hfirst, hothers⟩ := List.forall_mem_cons.mp h
      rw [← ih hothers, List.cons_append]
      cases others ++ rest with
      | nil => rfl
      | cons next more => rw [pairs_cons_cons, if_neg hfirst, List.nil_append]

theorem pairs_eq_nil (h : ∀ segment ∈ segments, segment ∉ layers) :
    pairs layers segments = [] := by
  rw [← List.append_nil segments, pairs_append_of_not_mem h, pairs]
  simp

/-- The innermost layer and the module behind it are the last pair. -/
theorem getLast?_pairs (outer : List String) {rest : List String} {layer next module : String}
    (hlayer : layer ∈ layers) (hmodule : FileName.moduleName? next = some module)
    (hinner : ∀ segment ∈ next :: rest, segment ∉ layers) :
    (pairs layers (outer ++ layer :: next :: rest)).getLast? = some (layer, module) := by
  induction outer with
  | nil => simp [pairs_cons_cons, hlayer, hmodule, pairs_eq_nil hinner]
  | cons first outer ih =>
      obtain ⟨second, tail, heq⟩ : ∃ second tail, outer ++ layer :: next :: rest = second :: tail :=
        List.exists_cons_of_ne_nil (by simp)
      rw [List.cons_append, heq, pairs_cons_cons, ← heq, List.getLast?_append, ih]
      rfl

end Scope

namespace Placement

variable {path root : Path} {relative : String} {layers : List String} {ranks : RankTable}
variable {placement : Placement} {key : String}

/-- What is read off the segments around an innermost layer. -/
def around (path : Path) (relative : String) (layers : List String) (ranks : RankTable)
    (outer : List String) (layer : String) (inner : List String) : Placement :=
  let moduleName := inner.head?.bind FileName.moduleName?
  let scopes := Scope.along layers (Path.segments relative)
  { path
    relativePath := relative
    layer
    rank := Layer.rank? ranks layer
    isGlobal := !outer.any layers.contains
    moduleName
    moduleKey := moduleName.map fun name => Scope.pairText (layer, name)
    scopedKey := if moduleName.isSome then scopes.getLast?.map Scope.key else none
    scopes }

theorem ofRelative?_of_segments {outer inner : List String} {layer : String}
    (hsegments : Path.segments relative = outer ++ layer :: inner) (hlayer : layer ∈ layers)
    (hinner : ∀ segment ∈ inner, segment ∉ layers) :
    ofRelative? path relative layers ranks =
      some (around path relative layers ranks outer layer inner) := by
  have hnext : (outer ++ layer :: inner)[outer.length + 1]? = inner.head? := by
    rw [List.getElem?_append_right (Nat.le_succ _), List.head?_eq_getElem?]
    simp
  simp [ofRelative?, around, hsegments, Layer.innermostEnd?_eq hlayer hinner, hnext]

theorem ofRelative?_eq_none (h : ∀ segment ∈ Path.segments relative, segment ∉ layers) :
    ofRelative? path relative layers ranks = none := by
  simp only [ofRelative?, Layer.innermostEnd?_eq_none h]
  rfl

/-- A placement is read off the segments around the innermost layer. -/
theorem exists_of_ofRelative? (h : ofRelative? path relative layers ranks = some placement) :
    ∃ outer layer inner, Path.segments relative = outer ++ layer :: inner ∧ layer ∈ layers ∧
      (∀ segment ∈ inner, segment ∉ layers) ∧
      placement = around path relative layers ranks outer layer inner := by
  by_cases hany : ∃ segment ∈ Path.segments relative, segment ∈ layers
  · obtain ⟨outer, layer, inner, hsegments, hlayer, hinner⟩ := Layer.exists_innermost hany
    rw [ofRelative?_of_segments hsegments hlayer hinner, Option.some.injEq] at h
    exact ⟨outer, layer, inner, hsegments, hlayer, hinner, h.symm⟩
  · rw [ofRelative?_eq_none fun segment hmem hlayer => hany ⟨segment, hmem, hlayer⟩] at h
    cases h

/-- A path has a placement exactly if one of its segments names a layer. -/
theorem isSome_ofRelative? (path : Path) (relative : String) (layers : List String)
    (ranks : RankTable) :
    (ofRelative? path relative layers ranks).isSome = Layer.occursIn layers relative := by
  have hoccurs : Layer.occursIn layers relative = true ↔
      ∃ segment ∈ Path.segments relative, segment ∈ layers := by
    simp [Layer.occursIn]
  rw [Bool.eq_iff_iff, hoccurs]
  constructor
  · intro hsome
    obtain ⟨placement, h⟩ := Option.isSome_iff_exists.mp hsome
    obtain ⟨outer, layer, inner, hsegments, hlayer, -, -⟩ := exists_of_ofRelative? h
    exact ⟨layer, by simp [hsegments], hlayer⟩
  · intro hany
    obtain ⟨outer, layer, inner, hsegments, hlayer, hinner⟩ := Layer.exists_innermost hany
    rw [ofRelative?_of_segments hsegments hlayer hinner]
    rfl

theorem scopes_eq (h : ofRelative? path relative layers ranks = some placement) :
    placement.scopes = Scope.along layers (Path.segments relative) := by
  obtain ⟨_, _, _, -, -, -, rfl⟩ := exists_of_ofRelative? h
  rfl

theorem moduleKey_eq_map_moduleName (h : ofRelative? path relative layers ranks = some placement) :
    placement.moduleKey =
      placement.moduleName.map fun name => Scope.pairText (placement.layer, name) := by
  obtain ⟨_, _, _, -, -, -, rfl⟩ := exists_of_ofRelative? h
  rfl

/-- The module behind the innermost layer ends the pairs along the path. -/
theorem getLast?_pairs_of_moduleName (h : ofRelative? path relative layers ranks = some placement)
    {name : String} (hname : placement.moduleName = some name) :
    (Scope.pairs layers (Path.segments relative)).getLast? = some (placement.layer, name) := by
  obtain ⟨outer, layer, inner, hsegments, hlayer, hinner, rfl⟩ := exists_of_ofRelative? h
  cases inner with
  | nil => cases hname
  | cons next rest =>
      rw [hsegments]
      exact Scope.getLast?_pairs outer hlayer hname hinner

/-- A path has a scoped key if its module has a name, and the key spells the pairs. -/
theorem scopedKey_eq_map_moduleName (h : ofRelative? path relative layers ranks = some placement) :
    placement.scopedKey = placement.moduleName.map fun _ =>
      Scope.keyOf (Scope.pairs layers (Path.segments relative)) := by
  have hwritten : placement.scopedKey = if placement.moduleName.isSome then
      (Scope.along layers (Path.segments relative)).getLast?.map Scope.key else none := by
    obtain ⟨_, _, _, -, -, -, rfl⟩ := exists_of_ofRelative? h
    rfl
  rw [hwritten]
  cases hname : placement.moduleName with
  | none => rfl
  | some name =>
      rw [Scope.getLast?_along, getLast?_pairs_of_moduleName h hname]
      rfl

/-- A scoped key ends in the innermost layer and the module behind it. -/
theorem exists_pairs_of_scopedKey (h : ofRelative? path relative layers ranks = some placement)
    (hkey : placement.scopedKey = some key) :
    ∃ module, (Scope.pairs layers (Path.segments relative)).getLast? =
        some (placement.layer, module) ∧
      key = Scope.keyOf (Scope.pairs layers (Path.segments relative)) := by
  rw [scopedKey_eq_map_moduleName h] at hkey
  obtain ⟨module, hmodule, rfl⟩ := Option.map_eq_some_iff.mp hkey
  exact ⟨module, getLast?_pairs_of_moduleName h hmodule, rfl⟩

/-- Places with one scoped key are in one layer. -/
theorem layer_eq_of_scopedKey {other : Placement} {path' root' : Path} {layers' : List String}
    {ranks' : RankTable} (h : ofPath? path root layers ranks = some placement)
    (h' : ofPath? path' root' layers' ranks' = some other) (hkey : placement.scopedKey = some key)
    (hkey' : other.scopedKey = some key) : placement.layer = other.layer := by
  obtain ⟨module, hlast, hspelled⟩ := exists_pairs_of_scopedKey h hkey
  obtain ⟨module', hlast', hspelled'⟩ := exists_pairs_of_scopedKey h' hkey'
  have hnames (layers : List String) (text : String) :
      ∀ part ∈ Scope.parts (Scope.pairs layers (Path.segments text)), '/' ∉ part.toList :=
    Scope.slash_not_mem_of_mem_pairs fun _ => Path.slash_not_mem_of_mem_segments
  have hpairs := Scope.keyOf_injective (hnames _ _) (hnames _ _) (hspelled.symm.trans hspelled')
  rw [hpairs, hlast'] at hlast
  simp only [Option.some.injEq, Prod.mk.injEq] at hlast
  exact hlast.1.symm

end Placement

end LayerLint
