import LayerLint.Proofs.Path.Join

/-! # The relative form of a path

As seen from a root, a place is written as a way: pairs of dots for the climb, and names behind
them. There is a climb exactly when the place is not at or below the root, and from its relative
form a place is found again, so that no two places share one.
-/

namespace LayerLint.Path

variable {path root : Path} {climbs : Nat} {names : List String}

/-- Items that a separator neither cuts nor empties are the segments of the joined text. -/
theorem segments_joinWith_of_uncut {items : List String}
    (h : ∀ item ∈ items, item ≠ "" ∧ '/' ∉ item.toList ∧ '\\' ∉ item.toList) :
    segments (Text.joinWith "/" items) = items := by
  rw [segments_joinWith]
  induction items with
  | nil => rfl
  | cons item rest ih =>
      obtain ⟨⟨hempty, hslash, hbackslash⟩, hrest⟩ := List.forall_mem_cons.mp h
      rw [List.flatMap_cons, segments_eq_singleton hempty hslash hbackslash, ih hrest]
      rfl

/-- A way begins with a pair of dots exactly if it climbs. -/
theorem head?_way (h : ∀ name ∈ names, IsName name) :
    ((way climbs names).map Component.text).head? = some ".." ↔ climbs ≠ 0 := by
  cases climbs with
  | zero =>
      cases names with
      | nil => simp [way]
      | cons name rest =>
          have hup : name ≠ ".." := (h name List.mem_cons_self).2.2.1
          simpa [way, Component.text] using hup
  | succ climbs => simp [way, List.replicate_succ, Component.text]

theorem head?_pieces_way (h : ∀ name ∈ names, IsName name) :
    (Text.pieces (· == '/') (Text.joinWith "/" ((way climbs names).map Component.text))).head? =
      some ".." ↔ climbs ≠ 0 := by
  by_cases hne : way climbs names = []
  · obtain ⟨rfl, rfl⟩ : climbs = 0 ∧ names = [] := by simpa [way] using hne
    decide
  · rw [pieces_joinWith_text (isStep_of_mem_way h) hne, head?_way h]

/-- Without backslashes in names, the segments of a way are its steps. -/
theorem segments_way (h : ∀ name ∈ names, IsName name)
    (hclean : ∀ name ∈ names, '\\' ∉ name.toList) :
    segments (Text.joinWith "/" ((way climbs names).map Component.text)) =
      (way climbs names).map Component.text := by
  apply segments_joinWith_of_uncut
  rw [List.forall_mem_map]
  intro step hstep
  have hwritten := isStep_of_mem_way h step hstep
  refine ⟨hwritten.text_ne.1, hwritten.slash_not_mem, ?_⟩
  rcases List.mem_append.mp hstep with hup | hname
  · rw [List.eq_of_mem_replicate hup]
    decide
  · obtain ⟨name, hmem, rfl⟩ := List.mem_map.mp hname
    exact hclean name hmem

theorem isAtOrBelow_normalize : root.normalize.isAtOrBelow path.normalize = true ↔
    root.normalComponents <+: path.normalComponents := by
  rw [isAtOrBelow, components_normalize, components_normalize, List.isPrefixOf_iff_prefix]

/-- What is written is a way to the place; it climbs unless the place is at or below the root. -/
theorem exists_way_relativeTo (hroot : root.isAbsolute = true) (hpath : path.isAbsolute = true) :
    ∃ climbs names, (∀ name ∈ names, IsName name) ∧
      (∀ name ∈ names, .name name ∈ path.normalComponents) ∧
      root.relativeTo path = Text.joinWith "/" ((way climbs names).map Component.text) ∧
      (climbs ≠ 0 ↔ ¬ root.normalComponents <+: path.normalComponents) := by
  obtain ⟨common, rest, rest', hrest', hnames, heq, hwritten⟩ := exists_relativeTo_eq hroot hpath
  have hmem : ∀ name ∈ rest', Component.name name ∈ path.normalComponents := by
    intro name hname
    rw [heq]
    exact List.mem_cons_of_mem _ (List.mem_map.mpr ⟨name, List.mem_append_right _ hname, rfl⟩)
  by_cases hbelow : root.normalComponents <+: path.normalComponents
  · obtain ⟨more, rfl⟩ : rest <+: rest' := by
      rw [hnames, heq, List.map_append, List.map_append, ← List.cons_append, ← List.cons_append,
        List.prefix_append_right_inj] at hbelow
      exact (List.prefix_map_iff_of_injective fun _ _ => Component.name.inj).mp hbelow
    have happend : path.normalComponents = root.normalComponents ++ more.map .name := by
      rw [hnames, heq, ← List.append_assoc, List.map_append]
      rfl
    refine ⟨0, more, (List.forall_mem_append.mp hrest').2, (List.forall_mem_append.mp hmem).2, ?_,
      ?_⟩
    · rw [relativeTo_of_names happend]
      simp [way, Function.comp_def, Component.text]
    · simp [hbelow]
  · refine ⟨rest.length, rest', hrest', hmem, hwritten, iff_of_true ?_ hbelow⟩
    intro hzero
    obtain rfl := List.length_eq_zero_iff.mp hzero
    apply hbelow
    rw [hnames, heq, List.append_nil, List.map_append, ← List.cons_append]
    exact List.prefix_append _ _

theorem normalize_eq_iff {other : Path} :
    path.normalize = other.normalize ↔ path.normalComponents = other.normalComponents := by
  constructor
  · intro heq
    rw [← components_normalize, heq, components_normalize]
  · exact congrArg ofComponents

end LayerLint.Path
