import LayerLint.Proofs.ConsumerTrail
import LayerLint.Proofs.Rule.SharedModule
import Mathlib.Data.List.TakeWhile

/-! # What scoped keys tell apart

A module is located at the beginning of its files' root-relative paths, through the segment after
the innermost layer. Its scoped key keeps the layer and module pairs of that location and drops the
other segments. Modules whose locations differ in a pair have different keys, and consumers of one
are never counted for the other. Modules in directories that are no layers, nor behind one, share
their keys and consumers with those of the same pairs elsewhere.
-/

namespace LayerLint

theorem FileName.moduleName?_of_eq_some {name module : String}
    (h : moduleName? name = some module) : moduleName? module = some module := by
  simp only [moduleName?, Option.ite_none_left_eq_some, Option.some.injEq] at h
  obtain ⟨hne, rfl⟩ := h
  rw [moduleName?, String.toList_ofList, List.takeWhile_idem, if_neg hne]

/-- Of the segments behind the innermost layer, only the module's name matters for the pairs. -/
theorem Scope.pairs_eq_of_innermost {layers rest : List String} {layer next module : String}
    (outer : List String) (hmodule : FileName.moduleName? next = some module)
    (hinner : ∀ segment ∈ next :: rest, segment ∉ layers) :
    pairs layers (outer ++ layer :: next :: rest) = pairs layers (outer ++ [layer, module]) := by
  induction outer with
  | nil =>
      rw [List.nil_append, List.nil_append, pairs_cons_cons, pairs_cons_cons, pairs_eq_nil hinner,
        hmodule, FileName.moduleName?_of_eq_some hmodule]
      rfl
  | cons first outer ih =>
      cases outer with
      | nil => simpa [pairs_cons_cons] using ih
      | cons second outer => simpa [pairs_cons_cons] using ih

namespace Placement

variable {path root : Path} {layers : List String} {ranks : RankTable} {placement : Placement}
variable {location : List String} {key : String}

/-- Where the module of a path is: the root-relative segments through the one after the innermost
layer, which is cut at its first dot. -/
def location? (root : Path) (layers : List String) (path : Path) : Option (List String) := do
  let segments := Path.segments (root.relativeTo path)
  let stop ← Layer.innermostEnd? layers segments
  let next ← segments[stop]?
  let module ← FileName.moduleName? next
  return segments.take stop ++ [module]

theorem location?_eq_map {outer inner : List String} {layer : String}
    (hsegments : Path.segments (root.relativeTo path) = outer ++ layer :: inner)
    (hlayer : layer ∈ layers) (hinner : ∀ segment ∈ inner, segment ∉ layers) :
    location? root layers path = (inner.head?.bind FileName.moduleName?).map fun module =>
      outer ++ [layer, module] := by
  have hnext : (outer ++ layer :: inner)[outer.length + 1]? = inner.head? := by
    rw [List.getElem?_append_right (Nat.le_succ _), List.head?_eq_getElem?]
    simp
  have htake : (outer ++ layer :: inner).take (outer.length + 1) = outer ++ [layer] := by
    simp [List.take_append]
  simp only [location?, hsegments, Layer.innermostEnd?_eq hlayer hinner, Option.bind_eq_bind,
    Option.bind_some, hnext, htake, List.append_assoc]
  cases inner.head? with
  | none => rfl
  | some next =>
      rw [Option.bind_some, Option.bind_some]
      cases FileName.moduleName? next <;> rfl

/-- The pairs along a path are those along its module's location. -/
theorem trail_eq_adjacent (h : ofPath? path root layers ranks = some placement)
    (hlocation : location? root layers path = some location) :
    trail root layers path = Scope.adjacent layers location := by
  obtain ⟨outer, layer, inner, hsegments, hlayer, hinner, -⟩ := exists_of_ofRelative? h
  rw [location?_eq_map hsegments hlayer hinner] at hlocation
  obtain ⟨module, hmodule, rfl⟩ := Option.map_eq_some_iff.mp hlocation
  cases inner with
  | nil => cases hmodule
  | cons next rest =>
      rw [trail, hsegments, ← Scope.pairs_eq_adjacent, ← Scope.pairs_eq_adjacent,
        Scope.pairs_eq_of_innermost outer hmodule hinner]

/-- A path has a scoped key if its module has a location, and the key spells the pairs. -/
theorem scopedKey_eq_map_location? (h : ofPath? path root layers ranks = some placement) :
    placement.scopedKey = (location? root layers path).map fun _ =>
      Scope.keyOf (trail root layers path) := by
  have hkey := scopedKey_eq_map_moduleName h
  obtain ⟨outer, layer, inner, hsegments, hlayer, hinner, hplacement⟩ := exists_of_ofRelative? h
  have hname : placement.moduleName = inner.head?.bind FileName.moduleName? := by
    rw [hplacement, around]
  rw [hkey, hname, location?_eq_map hsegments hlayer hinner, Option.map_map, Function.comp_def,
    trail, ← Scope.pairs_eq_adjacent]

theorem path_eq_of_ofPath? (h : ofPath? path root layers ranks = some placement) :
    placement.path = path := by
  obtain ⟨_, _, _, -, -, -, rfl⟩ := exists_of_ofRelative? h
  rfl

end Placement

namespace Rule.SharedModule

variable {context : Context} {path path' : Path} {placement other : Placement} {key key' : String}
variable {location : List String} {consumer : Consumer}

/-- Where the module of a path in a context is. -/
def location? (context : Context) (path : Path) : Option (List String) :=
  Placement.location? context.root context.config.layerDirs path

/-- The layer and module pairs of a location in a context. -/
def pairsAt (context : Context) (location : List String) : List (String × String) :=
  Scope.adjacent context.config.layerDirs location

/-- Some source text refers downward into a module that has these pairs, and counts as the
consumer. -/
def IsConsumerAt (context : Context) (pairs : List (String × String)) (consumer : Consumer) :
    Prop :=
  ∃ path ∈ context.candidates, path.isSource = true ∧
    ∃ edge ∈ ImportEdge.allFrom context path (context.text path),
      (∃ location, location? context edge.target.path = some location ∧
        pairsAt context location = pairs) ∧
      edge.target.layer ∈ context.config.sharedModules.layers ∧ edge.isDownward = true ∧
      edge.source.consumer? = some consumer

theorem exists_location? (h : context.placement? path = some placement)
    (hkey : placement.scopedKey = some key) :
    ∃ location, location? context path = some location ∧
      key = Scope.keyOf (pairsAt context location) := by
  rw [Placement.scopedKey_eq_map_location? h] at hkey
  obtain ⟨location, hlocation, rfl⟩ := Option.map_eq_some_iff.mp hkey
  exact ⟨location, hlocation, congrArg _ (Placement.trail_eq_adjacent h hlocation)⟩

theorem scopedKey_of_location? (h : context.placement? path = some placement)
    (hlocation : location? context path = some location) :
    placement.scopedKey = some (Scope.keyOf (pairsAt context location)) := by
  have hpairs := Placement.trail_eq_adjacent h hlocation
  rw [location?] at hlocation
  rw [Placement.scopedKey_eq_map_location? h, hlocation, Option.map_some, hpairs, pairsAt]

theorem keyOf_pairsAt_inj {location' : List String}
    (h : context.placement? path = some placement) (h' : context.placement? path' = some other)
    (hlocation : location? context path = some location)
    (hlocation' : location? context path' = some location') :
    Scope.keyOf (pairsAt context location) = Scope.keyOf (pairsAt context location') ↔
      pairsAt context location = pairsAt context location' := by
  have hpairs := Placement.trail_eq_adjacent h hlocation
  have hpairs' := Placement.trail_eq_adjacent h' hlocation'
  rw [pairsAt, pairsAt, ← hpairs, ← hpairs']
  constructor
  · exact Scope.keyOf_injective (Placement.slash_not_mem_parts_trail _ _ _)
      (Placement.slash_not_mem_parts_trail _ _ _)
  · exact congrArg Scope.keyOf

/-- The consumers that are counted for a key are those of all modules with the same pairs. -/
theorem isConsumer_iff_isConsumerAt (h : context.placement? path = some placement)
    (hlocation : location? context path = some location) :
    IsConsumer context (Scope.keyOf (pairsAt context location)) consumer ↔
      IsConsumerAt context (pairsAt context location) consumer := by
  have htarget (source : Path) (edge : ImportEdge)
      (hedge : edge ∈ ImportEdge.allFrom context source (context.text source)) :
      edge.target.scopedKey = some (Scope.keyOf (pairsAt context location)) ↔
        ∃ location', location? context edge.target.path = some location' ∧
          pairsAt context location' = pairsAt context location := by
    obtain ⟨place, hplace⟩ := ImportEdge.exists_placement?_target hedge
    rw [Placement.path_eq_of_ofPath? hplace]
    constructor
    · intro hkey
      obtain ⟨location', hlocation', hspelled⟩ := exists_location? hplace hkey
      exact ⟨location', hlocation',
        ((keyOf_pairsAt_inj h hplace hlocation hlocation').mp hspelled).symm⟩
    · rintro ⟨location', hlocation', hpairs⟩
      rw [scopedKey_of_location? hplace hlocation', hpairs]
  refine exists_congr fun source => and_congr_right fun _ => and_congr_right fun _ =>
    exists_congr fun edge => and_congr_right fun hedge => ?_
  rw [htarget source edge hedge, ImportEdge.isDownward_iff]

/-- An edge into a module counts for no other key. -/
theorem get?_count_of_ne {config : Config} {edge : ImportEdge} (usages : Dict Usage)
    (hkey : edge.target.scopedKey = some key') (hne : key ≠ key') :
    (count config usages edge).get? key = usages.get? key := by
  rw [count, hkey]
  cases edge.source.consumer? with
  | none => rfl
  | some consumer =>
      simp only
      split
      next => rw [Dict.get?_modify, if_neg hne]
      next => rfl

/-- Modules have one scoped key exactly if the layer and module pairs of their locations are the
same. What is counted for a key are the consumers of the modules with its pairs; no edge into a
module with other pairs is counted for it. -/
theorem keys_tell_pairs_apart (context : Context) {path path' : Path} {placement other : Placement}
    {key key' : String} (h : context.placement? path = some placement)
    (h' : context.placement? path' = some other) (hkey : placement.scopedKey = some key)
    (hkey' : other.scopedKey = some key') :
    ∃ location location', location? context path = some location ∧
      location? context path' = some location' ∧
      (key = key' ↔ pairsAt context location = pairsAt context location') ∧
      (∀ usage, (usages context).get? key = some usage →
        Consumer.Lists usage.consumers (IsConsumerAt context (pairsAt context location))) ∧
      ((usages context).get? key = none →
        ∀ consumer, ¬ IsConsumerAt context (pairsAt context location) consumer) ∧
      (pairsAt context location ≠ pairsAt context location' →
        ∀ (edge : ImportEdge) (usages : Dict Usage), edge.target.scopedKey = some key' →
          (count context.config usages edge).get? key = usages.get? key) := by
  obtain ⟨location, hlocation, rfl⟩ := exists_location? h hkey
  obtain ⟨location', hlocation', rfl⟩ := exists_location? h' hkey'
  have hkeys := keyOf_pairsAt_inj h h' hlocation hlocation'
  have hconsumers : IsConsumer context (Scope.keyOf (pairsAt context location)) =
      IsConsumerAt context (pairsAt context location) := by
    funext consumer
    exact propext (isConsumer_iff_isConsumerAt h hlocation)
  refine ⟨location, location', hlocation, hlocation', hkeys, ?_, ?_, ?_⟩
  · intro usage husage
    rw [← hconsumers]
    exact lists_of_get?_usages husage
  · intro hnone consumer hconsumer
    rw [← hconsumers] at hconsumer
    obtain ⟨usage, husage⟩ := exists_get?_usages hconsumer
    rw [hnone] at husage
    cases husage
  · intro hne edge usages htarget
    exact get?_count_of_ne usages htarget fun heq => hne (hkeys.mp heq)

/-- States of one name below two pages have different keys. -/
theorem keys_tell_pages_apart :
    let context := Context.ofConfig ⟨"/r"⟩ .standard
    ∃ placement other key key',
      context.placement? ⟨"/r/_pages/p/_states/s.ts"⟩ = some placement ∧
      context.placement? ⟨"/r/_pages/q/_states/s.ts"⟩ = some other ∧
      placement.scopedKey = some key ∧ other.scopedKey = some key' ∧ key ≠ key' := by
  intro context
  have hkey : (context.placement? ⟨"/r/_pages/p/_states/s.ts"⟩).bind Placement.scopedKey =
      some "_pages/p/_states/s" := by decide +kernel
  have hkey' : (context.placement? ⟨"/r/_pages/q/_states/s.ts"⟩).bind
      Placement.scopedKey = some "_pages/q/_states/s" := by decide +kernel
  obtain ⟨placement, h, hkey⟩ := Option.bind_eq_some_iff.mp hkey
  obtain ⟨other, h', hkey'⟩ := Option.bind_eq_some_iff.mp hkey'
  refine ⟨placement, other, _, _, h, h', hkey, hkey', ?_⟩
  obtain ⟨location, location', hlocation, hlocation', hkeys, -⟩ :=
    keys_tell_pairs_apart context h h' hkey hkey'
  have hfirst : location? context ⟨"/r/_pages/p/_states/s.ts"⟩ =
      some ["_pages", "p", "_states", "s"] := by decide +kernel
  have hsecond : location? context ⟨"/r/_pages/q/_states/s.ts"⟩ =
      some ["_pages", "q", "_states", "s"] := by decide +kernel
  obtain rfl := Option.some.inj (hfirst.symm.trans hlocation)
  obtain rfl := Option.some.inj (hsecond.symm.trans hlocation')
  rw [ne_eq, hkeys]
  decide +kernel

/-- Two packages with modules of one name. Each is used by one module, and lies in it. -/
def packages : Context :=
  let box : Path := ⟨"/r/a/_pages/p/_containers/c/c.ts"⟩
  let page : Path := ⟨"/r/b/_pages/p/p.ts"⟩
  { Context.ofConfig ⟨"/r"⟩ { Config.standard with sharedModules := { leastConsumers := 3 } } with
    files := [⟨"/r/a/_pages/p/_containers/c/_states/s.ts"⟩, box,
      ⟨"/r/b/_pages/p/_containers/c/_states/s.ts"⟩, page]
    texts := [(box.key, "import'./_states/s'"), (page.key, "import'./_containers/c/_states/s'")] }

/-- Modules in different places may have one key. In two packages, the consumers of both are counted
together, so that a module is reported though its only consumer contains it. -/
theorem keys_confuse_packages :
    (¬ ∀ (context : Context) (path path' : Path) (placement other : Placement)
        (key key' : String), path ∈ context.candidates → path' ∈ context.candidates →
        context.placement? path = some placement → context.placement? path' = some other →
        location? context path ≠ location? context path' →
        placement.scopedKey = some key → other.scopedKey = some key' → key ≠ key') ∧
      check packages =
        [.atStart id "a/_pages/p/_containers/c/_states/s.ts" <|
          message "_pages/p/_containers/c/_states/s"
            ⟨"_states", [.container "_pages/p/_containers/c", .page "_pages/p"]⟩] := by
  refine ⟨?_, by decide +kernel⟩
  intro hclaim
  let first : Path := ⟨"/r/a/_pages/p/_containers/c/_states/s.ts"⟩
  let second : Path := ⟨"/r/b/_pages/p/_containers/c/_states/s.ts"⟩
  have hkey : (packages.placement? first).bind Placement.scopedKey =
      some "_pages/p/_containers/c/_states/s" := by decide +kernel
  have hkey' : (packages.placement? second).bind Placement.scopedKey =
      some "_pages/p/_containers/c/_states/s" := by decide +kernel
  obtain ⟨placement, h, hkey⟩ := Option.bind_eq_some_iff.mp hkey
  obtain ⟨other, h', hkey'⟩ := Option.bind_eq_some_iff.mp hkey'
  have hcandidates : packages.candidates = packages.files := by decide +kernel
  have hfirst : first ∈ packages.candidates := by
    rw [hcandidates]
    exact List.mem_cons_self
  have hsecond : second ∈ packages.candidates := by
    rw [hcandidates]
    exact List.mem_cons_of_mem _ (List.mem_cons_of_mem _ List.mem_cons_self)
  exact hclaim packages first second placement other _ _ hfirst hsecond h h' (by decide +kernel)
    hkey hkey' rfl

end Rule.SharedModule

end LayerLint
