import LayerLint.Proofs.Path.Absolute
import LayerLint.Proofs.Path.Relative

/-! # Paths as seen from a directory

What is joined to a directory continues its components, so that in normal form it is reached by
taking its steps from there. The place of a path as seen from a directory is made of such steps: up
to where the two part, and down from there by the names that are left.
-/

namespace LayerLint.Path

variable {base path root : Path}

/-! ## Joining -/

/-- The steps that a path is written with, wherever it starts from. -/
def steps (path : Path) : List Component :=
  (Text.pieces (· == '/') path.text).filterMap Component.ofPiece?

theorem components_eq_steps (path : Path) : path.components =
    if path.isAbsolute then .root :: path.steps
    else if (Text.pieces (· == '/') path.text).head? = some "." then .here :: path.steps
    else path.steps :=
  rfl

theorem pieces_slash (first second : String) : Text.pieces (· == '/') (first ++ "/" ++ second) =
    Text.pieces (· == '/') first ++ Text.pieces (· == '/') second :=
  Text.pieces_append_of_cut (c := '/') (by simp) first second

theorem head?_pieces_slash (first second : String) :
    (Text.pieces (· == '/') (first ++ "/" ++ second)).head? =
      (Text.pieces (· == '/') first).head? := by
  rw [pieces_slash, List.head?_append_of_ne_nil]
  simp [Text.pieces]

theorem steps_slash (first second : String) :
    steps ⟨first ++ "/" ++ second⟩ = steps ⟨first⟩ ++ steps ⟨second⟩ := by
  rw [steps, pieces_slash, List.filterMap_append]
  rfl

theorem isAbsolute_append {first second : String} (h : first ≠ "") :
    (Path.mk (first ++ second)).isAbsolute = (Path.mk first).isAbsolute := by
  obtain ⟨c, chars, hchars⟩ := List.exists_cons_of_ne_nil (by simpa using h : first.toList ≠ [])
  simp [isAbsolute, Text.beginsWith, hchars, List.isPrefixOf]

theorem pieces_slash_empty (text : String) : Text.pieces (· == '/') (text ++ "/") =
    Text.pieces (· == '/') text ++ [""] := by
  rw [← String.append_empty (s := text ++ "/"), pieces_slash]
  rfl

theorem steps_slash_empty (text : String) : steps ⟨text ++ "/"⟩ = steps ⟨text⟩ := by
  rw [steps, pieces_slash_empty, List.filterMap_append]
  exact List.append_nil _

theorem head?_pieces_slash_empty (text : String) :
    (Text.pieces (· == '/') (text ++ "/")).head? = (Text.pieces (· == '/') text).head? := by
  rw [pieces_slash_empty, List.head?_append_of_ne_nil]
  simp [Text.pieces]

theorem dropLeading_slash {text : String} (h : (Path.mk text).isAbsolute = false) :
    Text.dropLeading '/' text = text :=
  Text.dropLeading_eq_self (c := '/') h

/-- A slash at the end says nothing, unless it is the root. -/
theorem components_slash_empty {text : String} (h : text ≠ "") :
    (Path.mk (text ++ "/")).components = (Path.mk text).components := by
  rw [components_eq_steps, components_eq_steps, steps_slash_empty, head?_pieces_slash_empty,
    isAbsolute_append h]

theorem components_slash (first second : String) : (Path.mk (first ++ "/" ++ second)).components =
    (Path.mk (first ++ "/")).components ++ steps ⟨second⟩ := by
  have hne : first ++ "/" ≠ "" := by simp
  rw [components_eq_steps, components_eq_steps, steps_slash, steps_slash_empty, head?_pieces_slash,
    head?_pieces_slash_empty, isAbsolute_append hne]
  split
  · rfl
  · split <;> rfl

/-- A relative path continues the components of the directory that it is joined to. -/
theorem components_join (hbase : base.text ≠ "") (hrelative : path.isAbsolute = false) :
    (base.join path).components = base.components ++ path.steps := by
  rw [join, hrelative, if_neg Bool.false_ne_true]
  split
  next hslash =>
    -- the slash that the base ends in is not written again
    obtain ⟨above, habove⟩ := Option.isSome_iff_exists.mp (hslash.resolve_left hbase)
    obtain ⟨text⟩ := base
    obtain rfl : text = above ++ "/" := Text.beforeEnd?_eq_some_iff.mp habove
    exact components_slash above path.text
  next =>
    rw [components_slash, components_slash_empty hbase]

theorem foldl_fold_components (stack : List Component) (h : path.isAbsolute = false) :
    path.components.foldl fold stack = path.steps.foldl fold stack := by
  rw [components_eq_steps, h, if_neg Bool.false_ne_true]
  split <;> rfl

/-- In normal form a relative path is reached by taking its steps from the directory. -/
theorem normalComponents_join (base : Path) (hrelative : path.isAbsolute = false) :
    (base.join path).normalComponents =
      (path.steps.foldl fold base.normalComponents.reverse).reverse := by
  by_cases hbase : base.text = ""
  · obtain ⟨text⟩ := base
    obtain rfl : text = "" := hbase
    have hjoin : (Path.mk "").join path = path := by
      rw [join, hrelative, if_neg Bool.false_ne_true, if_pos (.inl rfl)]
      exact congrArg Path.mk (String.empty_append ..)
    rw [hjoin, normalComponents, foldl_fold_components _ hrelative]
    rfl
  · rw [normalComponents, components_join hbase hrelative, List.foldl_append, normalComponents,
      List.reverse_reverse]

/-- Only the place of the directory and the steps of the path matter. -/
theorem normalize_join_congr {base' path' : Path}
    (hbase : base.normalComponents = base'.normalComponents) (hsteps : path.steps = path'.steps)
    (h : path.isAbsolute = false) (h' : path'.isAbsolute = false) :
    (base.join path).normalize = (base'.join path').normalize := by
  rw [normalize, normalize, normalComponents_join base h, normalComponents_join base' h', hbase,
    hsteps]

/-! ## Steps from one place to another -/

theorem steps_joinWith {taken : List Component} (h : ∀ step ∈ taken, step.IsStep) :
    steps ⟨Text.joinWith "/" (taken.map Component.text)⟩ = taken := by
  by_cases hne : taken = []
  · subst hne
    decide
  · rw [steps, pieces_joinWith_text h hne, filterMap_ofPiece?_text h]

theorem isAbsolute_joinWith {taken : List Component} (h : ∀ step ∈ taken, step.IsStep) :
    (Path.mk (Text.joinWith "/" (taken.map Component.text))).isAbsolute = false := by
  rw [← Bool.not_eq_true]
  intro habsolute
  have hcomponents := components_ofComponents h
  rw [ofComponents_eq_joinWith h, components_eq_steps, if_pos habsolute] at hcomponents
  exact not_isStep_root (h .root (hcomponents ▸ List.mem_cons_self))

theorem steps_name {name : String} (hname : IsName name) : steps ⟨name⟩ = [.name name] := by
  have hwritten : Text.joinWith "/" ([Component.name name].map Component.text) = name := by
    simp [Text.joinWith, Component.text]
  have hsteps := steps_joinWith (List.forall_mem_singleton.mpr (.inr ⟨name, rfl, hname⟩))
  rwa [hwritten] at hsteps

/-- An entry has one component more than the directory that it is in. -/
theorem components_join_name (path : Path) {name : String} (hname : IsName name) :
    (path.join ⟨name⟩).components = path.components ++ [.name name] := by
  by_cases hempty : path.text = ""
  · obtain ⟨text⟩ := path
    obtain rfl : text = "" := hempty
    have hjoin : (Path.mk "").join ⟨name⟩ = ofComponents [.name name] := by
      rw [join, hname.isAbsolute_eq, if_neg Bool.false_ne_true, if_pos (.inl rfl)]
      simp [ofComponents, Text.joinWith, Component.text]
    rw [hjoin, components_ofComponents (List.forall_mem_singleton.mpr (.inr ⟨name, rfl, hname⟩))]
    rfl
  · rw [components_join hempty hname.isAbsolute_eq, steps_name hname]

/-- The way that climbs so often and then goes down by these names. -/
def way (climbs : Nat) (names : List String) : List Component :=
  List.replicate climbs .up ++ names.map .name

theorem isStep_of_mem_way {climbs : Nat} {names : List String} (h : ∀ name ∈ names, IsName name) :
    ∀ step ∈ way climbs names, step.IsStep := by
  rw [way, List.forall_mem_append, List.forall_mem_map]
  exact ⟨fun step hstep => .inl (List.eq_of_mem_replicate hstep),
    fun name hname => .inr ⟨name, rfl, h name hname⟩⟩

/-- Climbing as often as there are names above takes them all back. -/
theorem foldl_fold_ups (names : List String) (stack : List Component) :
    (List.replicate names.length .up).foldl fold (names.map .name ++ stack) = stack := by
  induction names with
  | nil => rfl
  | cons name names ih =>
      rw [List.length_cons, List.replicate_succ, List.foldl_cons]
      exact ih

/-- The way from one end of common names to another. -/
theorem foldl_fold_way (common rest rest' : List String) :
    (way rest.length rest').foldl fold (.root :: (common ++ rest).map .name).reverse =
      (.root :: (common ++ rest').map .name).reverse := by
  have hclimb : (List.replicate rest.length .up).foldl fold
      (.root :: (common ++ rest).map .name).reverse = (.root :: common.map .name).reverse := by
    have hups := foldl_fold_ups rest.reverse (.root :: common.map .name).reverse
    rw [List.length_reverse, List.map_reverse, ← List.reverse_append] at hups
    simpa using hups
  rw [way, List.foldl_append, hclimb, foldl_fold_names, ← List.reverse_append, List.cons_append,
    ← List.map_append]

/-- Two lists of names part behind their longest common beginning. -/
theorem exists_parting (names others : List String) : ∃ common rest rest' : List String,
    names = common ++ rest ∧ others = common ++ rest' ∧
      commonLength (names.map .name) (others.map .name) = common.length := by
  induction names generalizing others with
  | nil => exact ⟨[], [], others, rfl, rfl, rfl⟩
  | cons name names ih =>
      cases others with
      | nil => exact ⟨[], name :: names, [], rfl, rfl, rfl⟩
      | cons other others =>
          by_cases heq : name = other
          · subst heq
            obtain ⟨common, rest, rest', rfl, rfl, hlength⟩ := ih others
            refine ⟨name :: common, rest, rest', rfl, rfl, ?_⟩
            rw [List.map_cons, List.map_cons, commonLength, if_pos rfl, hlength, List.length_cons]
          · refine ⟨[], name :: names, other :: others, rfl, rfl, ?_⟩
            simp [commonLength, heq]

/-- From one absolute path to another, one climbs to where they part and goes down from there. -/
theorem exists_relativeTo_eq (hroot : root.isAbsolute = true) (hpath : path.isAbsolute = true) :
    ∃ common rest rest' : List String, (∀ name ∈ rest', IsName name) ∧
      root.normalComponents = .root :: (common ++ rest).map .name ∧
      path.normalComponents = .root :: (common ++ rest').map .name ∧
      root.relativeTo path =
        Text.joinWith "/" ((way rest.length rest').map Component.text) := by
  obtain ⟨names, -, hnames⟩ := exists_normalComponents_eq hroot
  obtain ⟨others, hothers, heq⟩ := exists_normalComponents_eq hpath
  by_cases hprefix : names <+: others
  · -- below the root nothing is climbed
    obtain ⟨rest', rfl⟩ := hprefix
    refine ⟨names, [], rest', (List.forall_mem_append.mp hothers).2, by simpa using hnames, heq, ?_⟩
    have happend : path.normalComponents = root.normalComponents ++ rest'.map .name := by
      rw [heq, hnames, List.map_append]
      rfl
    rw [relativeTo_of_names happend]
    simp [way, Function.comp_def, Component.text]
  · obtain ⟨common, rest, rest', rfl, rfl, hlength⟩ := exists_parting names others
    refine ⟨common, rest, rest', (List.forall_mem_append.mp hothers).2, hnames, heq, ?_⟩
    have houtside : ¬ root.normalComponents.isPrefixOf path.normalComponents = true := by
      rw [List.isPrefixOf_iff_prefix, hnames, heq, List.cons_prefix_cons, not_and]
      intro _ hnames
      exact hprefix ((List.prefix_map_iff_of_injective fun _ _ => Component.name.inj).mp hnames)
    have hcommon : commonLength root.normalComponents path.normalComponents =
        common.length + 1 := by
      rw [hnames, heq, commonLength, if_pos rfl, hlength]
    rw [relativeTo, if_neg houtside, hcommon, hnames, heq]
    simp [way, Component.text]

/-- What is joined to the place from which it is seen is found again. -/
theorem normalComponents_join_relativeTo (hbase : base.normalComponents = root.normalComponents)
    (hroot : root.isAbsolute = true) (hpath : path.isAbsolute = true) :
    (base.join ⟨root.relativeTo path⟩).normalComponents = path.normalComponents := by
  obtain ⟨common, rest, rest', hrest', hnames, heq, hwritten⟩ := exists_relativeTo_eq hroot hpath
  have hsteps : ∀ step ∈ way rest.length rest', step.IsStep := isStep_of_mem_way hrest'
  rw [hwritten, normalComponents_join base (isAbsolute_joinWith hsteps), steps_joinWith hsteps,
    hbase, hnames, heq, foldl_fold_way, List.reverse_reverse]

theorem normalize_join_relativeTo (hbase : base.normalComponents = root.normalComponents)
    (hroot : root.isAbsolute = true) (hpath : path.isAbsolute = true) :
    (base.join ⟨root.relativeTo path⟩).normalize = path.normalize := by
  rw [normalize, normalComponents_join_relativeTo hbase hroot hpath, normalize]

theorem isAbsolute_relativeTo (hroot : root.isAbsolute = true) (hpath : path.isAbsolute = true) :
    (Path.mk (root.relativeTo path)).isAbsolute = false := by
  obtain ⟨common, rest, rest', hrest', -, -, hwritten⟩ := exists_relativeTo_eq hroot hpath
  rw [hwritten]
  exact isAbsolute_joinWith (isStep_of_mem_way hrest')

/-- A single name is written for an entry of the root, and for nothing else. -/
theorem relativeTo_eq_name_iff {name : String} (hname : IsName name)
    (hroot : root.isAbsolute = true) (hpath : path.isAbsolute = true) :
    root.relativeTo path = name ↔
      path.normalComponents = root.normalComponents ++ [.name name] := by
  constructor
  · intro heq
    have hjoin := normalComponents_join_relativeTo rfl hroot hpath
    rw [heq, normalComponents_join root hname.isAbsolute_eq, steps_name hname] at hjoin
    rw [← hjoin]
    simp [fold]
  · intro heq
    rw [relativeTo_of_append heq]
    simp [Text.joinWith, Component.text]

/-- Nothing is written for the place itself. -/
theorem normalComponents_join_empty (base : Path) :
    (base.join ⟨""⟩).normalComponents = base.normalComponents := by
  have hsteps : steps ⟨""⟩ = [] := by decide
  rw [normalComponents_join base (by decide), hsteps]
  exact List.reverse_reverse _

/-- A slash at the end says nothing. -/
theorem normalComponents_join_slash {text : String} (h : text ≠ "")
    (hrelative : (Path.mk text).isAbsolute = false) :
    (base.join ⟨text ++ "/"⟩).normalComponents = (base.join ⟨text⟩).normalComponents := by
  have hslash : (Path.mk (text ++ "/")).isAbsolute = false := by
    rw [isAbsolute_append h, hrelative]
  rw [normalComponents_join base hrelative, normalComponents_join base hslash, steps_slash_empty]

/-! ## Below a root -/

theorem IsBelow.isAbsolute (h : root.IsBelow path) (hroot : root.isAbsolute = true) :
    path.isAbsolute = true := by
  obtain ⟨rest, -, heq⟩ := h
  obtain ⟨names, -, hnames⟩ := exists_normalComponents_eq hroot
  apply isAbsolute_of_root_mem
  rw [heq, hnames]
  exact List.mem_cons_self

theorem IsBelow.relativeTo_ne_empty (h : root.IsBelow path) (hroot : root.isAbsolute = true) :
    root.relativeTo path ≠ "" := by
  intro hempty
  have hjoin := normalComponents_join_relativeTo rfl hroot (h.isAbsolute hroot)
  obtain ⟨rest, hne, heq⟩ := h
  rw [hempty, normalComponents_join_empty, heq, List.self_eq_append_right] at hjoin
  exact hne hjoin

theorem IsBelow.exists_parent? (h : root.IsBelow path) (hroot : root.isAbsolute = true) :
    ∃ above, path.parent? = some above ∧ above.isAbsolute = true := by
  obtain ⟨steps, hsteps, ⟨-, hcomponents⟩ | ⟨hrelative, -⟩⟩ := path.components_cases
  · -- behind the root there is a step, for the root is not below itself
    obtain ⟨above, last, rfl⟩ : ∃ above last, steps = above ++ [last] := by
      apply steps.eq_nil_or_concat'.resolve_left
      rintro rfl
      obtain ⟨rest, hne, heq⟩ := h
      obtain ⟨names, -, hnames⟩ := exists_normalComponents_eq hroot
      have hnormal : path.normalComponents = [.root] := by
        rw [normalComponents, hcomponents]
        rfl
      rw [hnormal, hnames, List.cons_append, List.cons.injEq, List.nil_eq_append_iff] at heq
      exact hne heq.2.2
    have hlast : last ≠ .root := fun heq => not_isStep_root (heq ▸ hsteps last (by simp))
    refine ⟨ofComponents (.root :: above), ?_, ?_⟩
    · rw [parent?, hcomponents, ← List.cons_append]
      simp only [List.getLast?_concat, List.dropLast_concat]
    · exact Text.beginsWith_iff.mpr ⟨Text.joinWith "/" (above.map Component.text), rfl⟩
  · rw [h.isAbsolute hroot] at hrelative
    cases hrelative

end LayerLint.Path
