import LayerLint.Proofs.Placement
import Mathlib.Data.Finset.Card

/-! # Consumers as lists of pairs

The consumer that a path counts as stands for a beginning of the layer and module pairs along the
path: through the innermost container if there is one, else through the innermost page, else all of
them. Its key spells these pairs, so that a consumer contains a module exactly when its pairs are a
beginning of the module's, and the key alone tells which kind of consumer it is.
-/

namespace LayerLint

namespace Scope

variable {layers segments : List String} {layer : String}
variable {trail : List (String × String)}

/-- The layer segments of a path that a segment with a module name follows, each with that name. -/
def adjacent (layers segments : List String) : List (String × String) :=
  (segments.zip segments.tail).filterMap fun step =>
    if step.1 ∈ layers then (FileName.moduleName? step.2).map (step.1, ·) else none

theorem pairs_eq_adjacent (layers segments : List String) :
    pairs layers segments = adjacent layers segments := by
  induction segments with
  | nil => rfl
  | cons segment rest ih =>
      cases rest with
      | nil => rfl
      | cons next rest =>
          rw [pairs_cons_cons, ih]
          simp only [adjacent, List.tail_cons, List.zip_cons_cons, List.filterMap_cons]
          split
          next => cases FileName.moduleName? next <;> simp
          next => rfl

/-! ## Beginnings of a list of pairs -/

/-- The pairs through the last one of a layer, if there is one. -/
def through? (layer : String) : List (String × String) → Option (List (String × String))
  | [] => none
  | pair :: rest =>
      match through? layer rest with
      | some inner => some (pair :: inner)
      | none => if pair.1 = layer then some [pair] else none

/-- The pairs that the consumer of a path stands for. -/
def consumerTrail (trail : List (String × String)) : List (String × String) :=
  ((through? Layer.containers trail).or (through? Layer.pages trail)).getD trail

theorem through?_eq_some {inner : List (String × String)} (h : through? layer trail = some inner) :
    inner <+: trail ∧ inner.getLast?.map Prod.fst = some layer := by
  induction trail generalizing inner with
  | nil => cases h
  | cons pair rest ih =>
      rw [through?] at h
      split at h
      next deeper hdeeper =>
        cases h
        obtain ⟨hbegins, hlast⟩ := ih hdeeper
        refine ⟨List.cons_prefix_cons.mpr ⟨rfl, hbegins⟩, ?_⟩
        cases deeper with
        | nil => cases hlast
        | cons second others => simpa [List.getLast?_cons_cons] using hlast
      next =>
        split at h
        next hlayer =>
          cases h
          exact ⟨⟨rest, rfl⟩, by simpa using hlayer⟩
        next => cases h

theorem ne_of_through?_eq_none (h : through? layer trail = none) :
    ∀ pair ∈ trail, pair.1 ≠ layer := by
  induction trail with
  | nil => simp
  | cons pair rest ih =>
      rw [through?] at h
      split at h
      next => cases h
      next hnone =>
        refine List.forall_mem_cons.mpr ⟨?_, ih hnone⟩
        simpa using h

theorem consumerTrail_prefix (trail : List (String × String)) : consumerTrail trail <+: trail := by
  unfold consumerTrail
  cases hcontainer : through? Layer.containers trail with
  | some inner => exact (through?_eq_some hcontainer).1
  | none =>
      cases hpage : through? Layer.pages trail with
      | some inner => exact (through?_eq_some hpage).1
      | none => exact List.prefix_rfl

/-- The innermost scope of a layer is spelled by the pairs through it. -/
theorem find?_reverse_nest (layer : String) (outer : List (String × String)) :
    ((nest (keyOf outer) trail).reverse.find? (·.layer == layer)).map Scope.key =
      (through? layer trail).map fun inner => keyOf (outer ++ inner) := by
  induction trail generalizing outer with
  | nil => rfl
  | cons pair rest ih =>
      have hinner := ih (outer ++ [pair])
      rw [nest_cons, List.reverse_cons, List.find?_append, through?]
      cases hdeeper : through? layer rest with
      | some inner =>
          rw [hdeeper] at hinner
          obtain ⟨scope, hscope, hkey⟩ := Option.map_eq_some_iff.mp hinner
          rw [hscope]
          simpa using hkey
      | none =>
          rw [hdeeper] at hinner
          rw [Option.map_eq_none_iff.mp hinner]
          by_cases hlayer : pair.1 = layer <;> simp [hlayer]

theorem find?_reverse_along (layer : String) (layers segments : List String) :
    ((along layers segments).reverse.find? (·.layer == layer)).map Scope.key =
      (through? layer (adjacent layers segments)).map keyOf := by
  rw [← pairs_eq_adjacent]
  exact find?_reverse_nest layer []

theorem ne_nil_of_last_layer (h : trail.getLast?.map Prod.fst = some layer) : trail ≠ [] := by
  rintro rfl
  cases h

theorem last_layer_ne (h : through? layer trail = none) :
    trail.getLast?.map Prod.fst ≠ some layer := by
  intro heq
  obtain ⟨pair, hpair, hlayer⟩ := Option.map_eq_some_iff.mp heq
  exact ne_of_through?_eq_none h pair (List.mem_of_getLast? hpair) hlayer

/-! ## Keys and beginnings -/

theorem parts_prefix_iff {first second : List (String × String)} :
    parts first <+: parts second ↔ first <+: second := by
  induction first generalizing second with
  | nil => simp
  | cons pair rest ih =>
      cases second with
      | nil => simp
      | cons other others =>
          simp only [parts_cons, List.cons_prefix_cons, ih, Prod.ext_iff, and_assoc]

theorem pieces_keyOf (hne : trail ≠ []) (h : ∀ part ∈ parts trail, '/' ∉ part.toList) :
    Text.pieces (· == '/') (keyOf trail) = parts trail :=
  Text.pieces_joinWith (mt parts_eq_nil_iff.mp hne) h

theorem keyOf_append {first second : List (String × String)} (hfirst : first ≠ [])
    (hsecond : second ≠ []) : keyOf (first ++ second) = keyOf first ++ "/" ++ keyOf second := by
  rw [keyOf, parts_append, Text.joinWith_append (mt parts_eq_nil_iff.mp hfirst)
    (mt parts_eq_nil_iff.mp hsecond)]
  rfl

end Scope

namespace Consumer

variable {consumer : Consumer} {scopedKey : String} {trail whole : List (String × String)}

theorem contains_eq_true_iff : consumer.contains scopedKey = true ↔
    scopedKey = consumer.key ∨ ∃ rest, scopedKey = consumer.key ++ "/" ++ rest := by
  rw [contains, Bool.or_eq_true, beq_iff_eq]
  apply or_congr_right
  constructor
  · intro h
    split at h
    next rest hrest =>
      obtain ⟨more, rfl⟩ := Text.beginsWith_iff.mp h
      exact ⟨more, by rw [Text.afterStart?_eq_some_iff.mp hrest, String.append_assoc]⟩
    next => cases h
  · rintro ⟨rest, rfl⟩
    rw [String.append_assoc, Text.afterStart?_eq_some_iff.mpr rfl]
    exact Text.beginsWith_iff.mpr ⟨rest, rfl⟩

/-- A consumer contains what is nested in its pairs. -/
theorem contains_iff_prefix (hkey : consumer.key = Scope.keyOf trail)
    (hspelled : scopedKey = Scope.keyOf whole) (htrail : trail ≠ []) (hwhole : whole ≠ [])
    (hslash : ∀ part ∈ Scope.parts trail, '/' ∉ part.toList)
    (hslash' : ∀ part ∈ Scope.parts whole, '/' ∉ part.toList) :
    consumer.contains scopedKey = true ↔ trail <+: whole := by
  rw [contains_eq_true_iff, hkey, hspelled]
  constructor
  · rintro (heq | ⟨rest, heq⟩)
    · rw [Scope.keyOf_injective hslash' hslash heq]
    · have hcut : Text.pieces (· == '/') (Scope.keyOf trail ++ "/" ++ rest) =
          Text.pieces (· == '/') (Scope.keyOf trail) ++ Text.pieces (· == '/') rest :=
        Text.pieces_append_of_cut (c := '/') (by simp) _ _
      have hpieces := congrArg (Text.pieces (· == '/')) heq
      rw [Scope.pieces_keyOf hwhole hslash', hcut, Scope.pieces_keyOf htrail hslash] at hpieces
      rw [← Scope.parts_prefix_iff, hpieces]
      exact List.prefix_append _ _
  · rintro ⟨more, rfl⟩
    by_cases hmore : more = []
    · simp [hmore]
    · exact .inr ⟨_, Scope.keyOf_append htrail hmore⟩

/-- The consumer that some pairs stand for; its kind is told by the layer of the last one. -/
def ofTrail (trail : List (String × String)) : Consumer :=
  if trail.getLast?.map Prod.fst = some Layer.containers then .container (Scope.keyOf trail)
  else if trail.getLast?.map Prod.fst = some Layer.pages then .page (Scope.keyOf trail)
  else .module (Scope.keyOf trail)

theorem ofTrail_of_container (h : trail.getLast?.map Prod.fst = some Layer.containers) :
    ofTrail trail = .container (Scope.keyOf trail) :=
  if_pos h

theorem ofTrail_of_page (h : trail.getLast?.map Prod.fst = some Layer.pages) :
    ofTrail trail = .page (Scope.keyOf trail) := by
  have hother : trail.getLast?.map Prod.fst ≠ some Layer.containers := by
    rw [h]
    decide
  rw [ofTrail, if_neg hother, if_pos h]

theorem ofTrail_of_other (hcontainer : trail.getLast?.map Prod.fst ≠ some Layer.containers)
    (hpage : trail.getLast?.map Prod.fst ≠ some Layer.pages) :
    ofTrail trail = .module (Scope.keyOf trail) := by
  rw [ofTrail, if_neg hcontainer, if_neg hpage]

theorem key_ofTrail (trail : List (String × String)) :
    (ofTrail trail).key = Scope.keyOf trail := by
  rw [ofTrail]
  split
  · rfl
  · split <;> rfl

end Consumer

namespace Placement

variable {path root : Path} {layers : List String} {ranks : RankTable} {placement : Placement}

/-- The layer and module pairs along the root-relative segments of a path. -/
def trail (root : Path) (layers : List String) (path : Path) : List (String × String) :=
  Scope.adjacent layers (Path.segments (root.relativeTo path))

theorem slash_not_mem_parts_trail (root : Path) (layers : List String) (path : Path) :
    ∀ part ∈ Scope.parts (trail root layers path), '/' ∉ part.toList := by
  rw [trail, ← Scope.pairs_eq_adjacent]
  exact Scope.slash_not_mem_of_mem_pairs fun _ => Path.slash_not_mem_of_mem_segments

theorem scopedKey_eq_keyOf (h : ofPath? path root layers ranks = some placement) {key : String}
    (hkey : placement.scopedKey = some key) :
    key = Scope.keyOf (trail root layers path) ∧ trail root layers path ≠ [] := by
  obtain ⟨module, hlast, heq⟩ := exists_pairs_of_scopedKey h hkey
  rw [Scope.pairs_eq_adjacent] at hlast heq
  refine ⟨heq, ?_⟩
  intro hnil
  rw [trail] at hnil
  rw [hnil] at hlast
  cases hlast

theorem scopeIn?_eq (h : ofPath? path root layers ranks = some placement) (layer : String) :
    placement.scopeIn? layer =
      (Scope.through? layer (trail root layers path)).map Scope.keyOf := by
  rw [scopeIn?, scopes_eq h, trail, Scope.find?_reverse_along]

/-- The consumer of a path is the one that its consumer trail stands for. -/
theorem consumer?_eq_ofTrail (h : ofPath? path root layers ranks = some placement)
    {consumer : Consumer} (hconsumer : placement.consumer? = some consumer) :
    consumer = .ofTrail (Scope.consumerTrail (trail root layers path)) ∧
      Scope.consumerTrail (trail root layers path) ≠ [] := by
  rw [consumer?, containerScope?, pageScope?, scopeIn?_eq h, scopeIn?_eq h] at hconsumer
  unfold Scope.consumerTrail
  cases hcontainer : Scope.through? Layer.containers (trail root layers path) with
  | some inner =>
      have hlast := (Scope.through?_eq_some hcontainer).2
      rw [hcontainer] at hconsumer
      cases hconsumer
      rw [Option.some_or, Option.getD_some]
      exact ⟨(Consumer.ofTrail_of_container hlast).symm, Scope.ne_nil_of_last_layer hlast⟩
  | none =>
      rw [hcontainer] at hconsumer
      cases hpage : Scope.through? Layer.pages (trail root layers path) with
      | some inner =>
          have hlast := (Scope.through?_eq_some hpage).2
          rw [hpage] at hconsumer
          cases hconsumer
          rw [Option.none_or, Option.getD_some]
          exact ⟨(Consumer.ofTrail_of_page hlast).symm, Scope.ne_nil_of_last_layer hlast⟩
      | none =>
          rw [hpage] at hconsumer
          have hmodule : placement.scopedKey.map Consumer.module = some consumer := hconsumer
          obtain ⟨key, hkey, heq⟩ := Option.map_eq_some_iff.mp hmodule
          obtain ⟨hspelled, hnil⟩ := scopedKey_eq_keyOf h hkey
          rw [← heq, hspelled, Option.none_or, Option.getD_none]
          have hother := Consumer.ofTrail_of_other (Scope.last_layer_ne hcontainer)
            (Scope.last_layer_ne hpage)
          exact ⟨hother.symm, hnil⟩

theorem slash_not_mem_parts_consumerTrail (root : Path) (layers : List String) (path : Path) :
    ∀ part ∈ Scope.parts (Scope.consumerTrail (trail root layers path)), '/' ∉ part.toList := by
  obtain ⟨more, hmore⟩ := Scope.consumerTrail_prefix (trail root layers path)
  have hall := slash_not_mem_parts_trail root layers path
  rw [← hmore, Scope.parts_append, List.forall_mem_append] at hall
  exact hall.1

/-- Consumers of paths that have one key are the same. -/
theorem consumer_eq_of_key_eq {path' : Path} {other : Placement}
    (h : ofPath? path root layers ranks = some placement)
    (h' : ofPath? path' root layers ranks = some other) {consumer consumer' : Consumer}
    (hconsumer : placement.consumer? = some consumer)
    (hconsumer' : other.consumer? = some consumer') (hkey : consumer.key = consumer'.key) :
    consumer = consumer' := by
  have htrail := (consumer?_eq_ofTrail h hconsumer).1
  have htrail' := (consumer?_eq_ofTrail h' hconsumer').1
  have hkeys : Scope.keyOf (Scope.consumerTrail (trail root layers path)) =
      Scope.keyOf (Scope.consumerTrail (trail root layers path')) := by
    rw [← Consumer.key_ofTrail, ← Consumer.key_ofTrail, ← htrail, ← htrail', hkey]
  rw [htrail, htrail', Scope.keyOf_injective (slash_not_mem_parts_consumerTrail root layers path)
    (slash_not_mem_parts_consumerTrail root layers path') hkeys]

/-- Scoped keys are equal exactly when the pairs along their paths are. A consumer contains a module
exactly when its pairs begin the module's, and so contains the module that it comes from. Consumers
are told apart by their keys, whatever their kinds, so there are as many keys as consumers. -/
theorem keys_spell_trails (root : Path) (layers : List String) (ranks : RankTable)
    {path path' : Path} {placement other : Placement}
    (h : ofPath? path root layers ranks = some placement)
    (h' : ofPath? path' root layers ranks = some other) :
    (∀ key key', placement.scopedKey = some key → other.scopedKey = some key' →
      (key = key' ↔ trail root layers path = trail root layers path')) ∧
    (∀ consumer key, placement.consumer? = some consumer → other.scopedKey = some key →
      (consumer.contains key = true ↔
        Scope.consumerTrail (trail root layers path) <+: trail root layers path')) ∧
    (∀ consumer key, placement.consumer? = some consumer → placement.scopedKey = some key →
      consumer.contains key = true) ∧
    (∀ consumer consumer', placement.consumer? = some consumer → other.consumer? = some consumer' →
      consumer.key = consumer'.key → consumer = consumer') ∧
    ∀ consumers : Finset Consumer,
      (∀ consumer ∈ consumers, ∃ path placement, ofPath? path root layers ranks = some placement ∧
        placement.consumer? = some consumer) →
      (consumers.image Consumer.key).card = consumers.card := by
  have hcontains (path' : Path) (other : Placement)
      (h' : ofPath? path' root layers ranks = some other) (consumer : Consumer) (key : String)
      (hconsumer : placement.consumer? = some consumer) (hkey : other.scopedKey = some key) :
      consumer.contains key = true ↔
        Scope.consumerTrail (trail root layers path) <+: trail root layers path' := by
    obtain ⟨hspelled, hwhole⟩ := scopedKey_eq_keyOf h' hkey
    obtain ⟨htrail, hne⟩ := consumer?_eq_ofTrail h hconsumer
    have hown : consumer.key = Scope.keyOf (Scope.consumerTrail (trail root layers path)) := by
      rw [htrail, Consumer.key_ofTrail]
    exact Consumer.contains_iff_prefix hown hspelled hne hwhole
      (slash_not_mem_parts_consumerTrail root layers path)
      (slash_not_mem_parts_trail root layers path')
  refine ⟨?_, hcontains path' other h', ?_, ?_, ?_⟩
  · intro key key' hkey hkey'
    rw [(scopedKey_eq_keyOf h hkey).1, (scopedKey_eq_keyOf h' hkey').1]
    constructor
    · exact Scope.keyOf_injective (slash_not_mem_parts_trail root layers path)
        (slash_not_mem_parts_trail root layers path')
    · exact congrArg Scope.keyOf
  · intro consumer key hconsumer hkey
    exact (hcontains path placement h consumer key hconsumer hkey).mpr
      (Scope.consumerTrail_prefix _)
  · intro consumer consumer' hconsumer hconsumer' hkey
    exact consumer_eq_of_key_eq h h' hconsumer hconsumer' hkey
  · intro consumers hderived
    apply Finset.card_image_of_injOn
    intro consumer hmem consumer' hmem' hkey
    obtain ⟨path, placement, h, hconsumer⟩ := hderived consumer hmem
    obtain ⟨path', other, h', hconsumer'⟩ := hderived consumer' hmem'
    exact consumer_eq_of_key_eq h h' hconsumer hconsumer' hkey

/-- A container holds a state that is nested in it, and not one of a container with a longer
name. -/
theorem keys_spell_trails_of_land :
    let land : Path := ⟨"/r/_pages/home/_containers/land/index.ts"⟩
    let state : Path := ⟨"/r/_pages/home/_containers/landing/_states/search/index.ts"⟩
    ∃ first second : Placement,
      ofPath? land ⟨"/r"⟩ Layer.names Layer.ranks = some first ∧
      ofPath? state ⟨"/r"⟩ Layer.names Layer.ranks = some second ∧
      second.scopedKey = some "_pages/home/_containers/landing/_states/search" ∧
      first.consumer? = some (.container "_pages/home/_containers/land") ∧
      second.consumer? = some (.container "_pages/home/_containers/landing") ∧
      (Consumer.container "_pages/home/_containers/land").contains
        "_pages/home/_containers/landing/_states/search" = false ∧
      (Consumer.container "_pages/home/_containers/landing").contains
        "_pages/home/_containers/landing/_states/search" = true := by
  intro land state
  obtain ⟨first, hfirst⟩ : ∃ first, ofPath? land ⟨"/r"⟩ Layer.names Layer.ranks = some first :=
    Option.isSome_iff_exists.mp (by decide +kernel)
  obtain ⟨second, hsecond⟩ : ∃ second, ofPath? state ⟨"/r"⟩ Layer.names Layer.ranks = some second :=
    Option.isSome_iff_exists.mp (by decide +kernel)
  have hkey : (ofPath? state ⟨"/r"⟩ Layer.names Layer.ranks).bind scopedKey =
      some "_pages/home/_containers/landing/_states/search" := by decide +kernel
  have hland : (ofPath? land ⟨"/r"⟩ Layer.names Layer.ranks).bind consumer? =
      some (.container "_pages/home/_containers/land") := by decide +kernel
  have hlanding : (ofPath? state ⟨"/r"⟩ Layer.names Layer.ranks).bind consumer? =
      some (.container "_pages/home/_containers/landing") := by decide +kernel
  rw [hfirst, Option.bind_some] at hland
  rw [hsecond, Option.bind_some] at hkey hlanding
  have hcontains := (keys_spell_trails ⟨"/r"⟩ Layer.names Layer.ranks hfirst hsecond).2.1 _ _
    hland hkey
  have hown := (keys_spell_trails ⟨"/r"⟩ Layer.names Layer.ranks hsecond hsecond).2.2.1 _ _
    hlanding hkey
  refine ⟨first, second, hfirst, hsecond, hkey, hland, hlanding, ?_, hown⟩
  rw [← Bool.not_eq_true, hcontains]
  decide +kernel

end Placement

end LayerLint
