import LayerLint.Proofs.Path.Entry

/-! # The last segment of a relative form

The name of a path is its last step, whether that is written as a name or as a pair of dots. Below a
root it is the last segment of the relative form. A path that ends in a pair of dots consists of
nothing else, and only such a path has a name without being an entry.
-/

namespace LayerLint.Path

variable {root path : Path} {name : String}

/-- The last step of the path is written as `name`. -/
def IsNamed (path : Path) (name : String) : Prop :=
  ∃ step, path.components.getLast? = some step ∧ step ≠ .root ∧ step.text = name

theorem IsNamed.eq {other : String} (h : path.IsNamed name) (h' : path.IsNamed other) :
    name = other := by
  obtain ⟨step, hlast, -, rfl⟩ := h
  obtain ⟨step', hlast', -, rfl⟩ := h'
  rw [Option.some.inj (hlast.symm.trans hlast')]

/-! ## Normal forms by their last step -/

/-- A normal form is the slash of the root alone, or pairs of dots alone, or it ends in a name. -/
theorem normalComponents_cases (path : Path) : path.normalComponents = [.root] ∨
    (∃ count, path.normalComponents = List.replicate count .up) ∨
      ∃ front name, path.normalComponents = front ++ [.name name] := by
  have hstack := isStack_components path
  rw [normalComponents]
  generalize path.components.foldl fold [] = stack at hstack ⊢
  cases hstack with
  | root => exact .inl rfl
  | climbs count => exact .inr (.inl ⟨count, List.reverse_replicate ..⟩)
  | push => exact .inr (.inr ⟨_, _, List.reverse_cons ..⟩)

theorem eq_singleton_of_getLast?_eq_root (h : path.normalComponents.getLast? = some .root) :
    path.normalComponents = [.root] := by
  obtain hroot | ⟨count, heq⟩ | ⟨front, name, heq⟩ := path.normalComponents_cases
  · exact hroot
  · rw [heq] at h
    cases List.eq_of_mem_replicate (List.mem_of_getLast? h)
  · rw [heq, List.getLast?_concat] at h
    cases h

/-- Nothing but pairs of dots stands in front of a pair of dots. -/
theorem eq_up_of_getLast?_eq_up (h : path.normalComponents.getLast? = some .up) :
    ∀ component ∈ path.normalComponents, component = .up := by
  obtain hroot | ⟨count, heq⟩ | ⟨front, name, heq⟩ := path.normalComponents_cases
  · rw [hroot] at h
    cases h
  · rw [heq]
    exact fun component => List.eq_of_mem_replicate
  · rw [heq, List.getLast?_concat] at h
    cases h

/-- A path that has a name and is no entry consists of pairs of dots. -/
theorem IsNamed.cases (hnormal : path.normalize = path) (h : path.IsNamed name) :
    path.fileName? = some name ∨ name = ".." ∧ ∀ component ∈ path.components, component = .up := by
  obtain ⟨step, hlast, hroot, rfl⟩ := h
  have hmem : step ∈ path.normalComponents :=
    components_eq_normalComponents hnormal ▸ List.mem_of_getLast? hlast
  cases isStep_of_mem_normalComponents hmem hroot with
  | inl hup =>
      subst hup
      rw [components_eq_normalComponents hnormal] at hlast ⊢
      exact .inr ⟨rfl, eq_up_of_getLast?_eq_up hlast⟩
  | inr hname =>
      obtain ⟨text, rfl, -⟩ := hname
      exact .inl (by rw [fileName?, hlast]; rfl)

theorem fileName?_eq_none_of_up (hup : ∀ component ∈ path.components, component = .up) :
    path.fileName? = none := by
  rw [fileName?, Option.bind_eq_none_iff]
  intro component hcomponent
  rw [hup component (List.mem_of_getLast? hcomponent)]
  rfl

/-! ## Segments of the relative form -/

section

variable (hnormal : path.normalize = path) (hbelow : root.normalComponents <+: path.components)
  (hclean : ∀ component ∈ path.components, '\\' ∉ component.text.toList)

include hnormal hbelow

/-- What consists of pairs of dots is reached by pairs of dots. -/
theorem exists_relativeTo_of_up (hup : ∀ component ∈ path.components, component = .up) :
    ∃ count, root.relativeTo path = Text.joinWith "/" (List.replicate count "..") := by
  obtain ⟨rest, hrest⟩ := hbelow
  have hclimb : rest = List.replicate rest.length .up := by
    refine List.eq_replicate_of_mem fun component hmem => hup component ?_
    rw [← hrest]
    exact List.mem_append_right _ hmem
  rw [components_eq_normalComponents hnormal] at hrest
  refine ⟨rest.length, ?_⟩
  rw [relativeTo_of_append hrest.symm, hclimb]
  simp [Component.text]

/-- At the root, and at the slash above all, there is no segment. -/
theorem segments_relativeTo_eq_nil (h : ¬ ∃ name, root.IsBelow path ∧ path.IsNamed name) :
    segments (root.relativeTo path) = [] := by
  obtain ⟨rest, hrest⟩ := hbelow
  rw [components_eq_normalComponents hnormal] at hrest
  obtain rfl | ⟨front, last, rfl⟩ := rest.eq_nil_or_concat'
  · rw [relativeTo_of_append hrest.symm]
    decide
  · have hlast : path.normalComponents.getLast? = some last := by
      rw [← hrest, ← List.append_assoc, List.getLast?_concat]
    have hroot : last = .root := by
      refine Classical.byContradiction fun hne => h ⟨last.text, ⟨_, by simp, hrest.symm⟩, last, ?_⟩
      rw [components_eq_normalComponents hnormal]
      exact ⟨hlast, hne, rfl⟩
    subst hroot
    have hpath := eq_singleton_of_getLast?_eq_root hlast
    have hbase : root.normalComponents = [] := by
      have hlength := congrArg List.length (hrest.trans hpath)
      simp only [List.length_append, List.length_singleton] at hlength
      exact List.eq_nil_of_length_eq_zero (by omega)
    have happend : path.normalComponents = root.normalComponents ++ [.root] := by
      rw [hpath, hbase, List.nil_append]
    rw [relativeTo_of_append happend]
    decide

include hclean

omit hbelow in
/-- Below the root the name of a path is the last segment. -/
theorem getLast?_segments_relativeTo (hlower : root.IsBelow path) (hname : path.IsNamed name) :
    (segments (root.relativeTo path)).getLast? = some name := by
  obtain ⟨rest, hne, hrest⟩ := hlower
  obtain ⟨step, hlast, hroot, rfl⟩ := hname
  obtain ⟨front, last, rfl⟩ := rest.eq_nil_or_concat'.resolve_left hne
  obtain rfl : last = step := by
    rw [components_eq_normalComponents hnormal, hrest, ← List.append_assoc, List.getLast?_concat]
      at hlast
    exact Option.some.inj hlast
  rw [segments_relativeTo_of_concat hrest hroot, List.getLast?_concat]
  intro component hcomponent
  apply hclean
  rw [components_eq_normalComponents hnormal, hrest]
  exact List.mem_append_right _ hcomponent

theorem getLast?_segments_relativeTo_iff :
    (segments (root.relativeTo path)).getLast? = some name ↔
      root.IsBelow path ∧ path.IsNamed name := by
  constructor
  · intro hlast
    by_cases hnamed : ∃ name, root.IsBelow path ∧ path.IsNamed name
    · obtain ⟨other, hlower, hother⟩ := hnamed
      have hsame := getLast?_segments_relativeTo hnormal hclean hlower hother
      obtain rfl : other = name := Option.some.inj (hsame.symm.trans hlast)
      exact ⟨hlower, hother⟩
    · rw [segments_relativeTo_eq_nil hnormal hbelow hnamed] at hlast
      cases hlast
  · rintro ⟨hlower, hname⟩
    exact getLast?_segments_relativeTo hnormal hclean hlower hname

end

end LayerLint.Path
