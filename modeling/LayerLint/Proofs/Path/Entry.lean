import LayerLint.Proofs.Path.LastComponent

/-! # Entries and the directories above them

A path in normal form that ends in a name is the entry of that name in the directory above it. That
directory is in normal form too, and joining the name to it gives the path back.
-/

namespace LayerLint.Path

variable {path directory : Path} {above steps : List Component} {name : String}

theorem components_eq_normalComponents (hnormal : path.normalize = path) :
    path.components = path.normalComponents := by
  rw [← components_normalize, hnormal]

theorem ofComponents_components (hnormal : path.normalize = path) :
    ofComponents path.components = path := by
  rw [components_eq_normalComponents hnormal]
  exact hnormal

theorem parent?_of_concat (h : path.components = above ++ [.name name]) :
    path.parent? = some (ofComponents above) := by
  simp only [parent?, h, List.getLast?_concat, List.dropLast_concat]

theorem fileName?_of_concat (h : path.components = above ++ [.name name]) :
    path.fileName? = some name := by
  simp only [fileName?, h, List.getLast?_concat, Option.bind_some, Component.name?]

theorem entry?_of_concat (h : path.components = above ++ [.name name]) :
    path.entry? = some (keyOf above, name) := by
  simp only [h, entry?, List.getLast?_concat, List.dropLast_concat, Option.bind_some,
    Component.name?, Option.map_some]

/-- The components in front of the last one are those of the directory above. -/
theorem components_ofComponents_above (hnormal : path.normalize = path)
    (h : path.components = above ++ [.name name]) : (ofComponents above).components = above := by
  have hstack := isStack_above (congrArg components hnormal) h (by rintro ⟨⟩)
  simpa using hstack.components_ofComponents

/-- The key and the name of an entry are those of the directory above it and of its end. -/
theorem entry?_eq_some_iff (hpath : path.normalize = path)
    (hdirectory : directory.normalize = directory) :
    path.entry? = some (directory.key, name) ↔
      path.parent? = some directory ∧ path.fileName? = some name := by
  constructor
  · intro h
    have hconcat := components_of_entry? h
    refine ⟨?_, fileName?_of_concat hconcat⟩
    rw [parent?_of_concat hconcat, ofComponents_components hdirectory]
  · rintro ⟨hparent, hname⟩
    have hconcat := components_of_fileName? hname
    rw [parent?_of_concat hconcat, Option.some.injEq] at hparent
    rw [entry?_of_concat hconcat, key, ← hparent, components_ofComponents_above hpath hconcat]

/-! ## Joining the name again -/

/-- A relative path in normal form does not end in a slash. -/
theorem beforeEnd?_ofComponents (h : ∀ step ∈ steps, step.IsStep) (hne : steps ≠ []) :
    Text.beforeEnd? "/" (ofComponents steps).text = none := by
  rw [Option.eq_none_iff_forall_ne_some]
  intro rest hrest
  have hpieces := pieces_joinWith_text h hne
  have htext : Text.joinWith "/" (steps.map Component.text) = rest ++ "/" := by
    rw [← Text.beforeEnd?_eq_some_iff, ← hrest, ofComponents_eq_joinWith h]
  -- the slash would cut off an empty piece
  rw [htext, pieces_slash_empty] at hpieces
  have hempty : "" ∈ steps.map Component.text := by
    rw [← hpieces]
    exact List.mem_append_right _ List.mem_cons_self
  obtain ⟨step, hstep, heq⟩ := List.mem_map.mp hempty
  exact (h step hstep).text_ne.1 heq

theorem join_ofComponents (h : ∀ step ∈ steps, step.IsStep) (hname : IsName name) :
    (ofComponents steps).join ⟨name⟩ = ofComponents (steps ++ [.name name]) := by
  have hall : ∀ step ∈ steps ++ [.name name], step.IsStep :=
    List.forall_mem_append.mpr ⟨h, List.forall_mem_singleton.mpr (.inr ⟨name, rfl, hname⟩)⟩
  rw [join, hname.isAbsolute_eq, if_neg Bool.false_ne_true, ofComponents_eq_joinWith hall]
  by_cases hne : steps = []
  · subst hne
    rw [if_pos (.inl rfl)]
    simp [ofComponents, Text.joinWith, Component.text]
  · have htext : (ofComponents steps).text ≠ "" := by
      intro hempty
      have hcomponents := components_ofComponents h
      have hnone : (Path.mk "").components = [] := by decide
      rw [← congrArg Path.mk hempty] at hnone
      exact hne (hcomponents.symm.trans hnone)
    rw [if_neg (by simp [htext, beforeEnd?_ofComponents h hne]), List.map_append,
      Text.joinWith_append (by simpa using hne) (by simp), ofComponents_eq_joinWith h]
    simp [Text.joinWith, Component.text]

/-- A path in normal form is joined from the directory above it and its name. -/
theorem join_of_parent? (hnormal : path.normalize = path) (hparent : path.parent? = some directory)
    (hname : path.fileName? = some name) : directory.join ⟨name⟩ = path := by
  have hconcat := components_of_fileName? hname
  have hisName : IsName name :=
    isName_of_mem_components (hconcat ▸ List.mem_append_right _ List.mem_cons_self)
  rw [parent?_of_concat hconcat, Option.some.injEq] at hparent
  by_cases habsolute : path.isAbsolute = true
  · obtain ⟨front, hnames, rfl, habove⟩ := exists_eq_ofNames_concat habsolute hnormal hconcat
    rw [← hparent, habove]
    exact join_ofNames (List.forall_mem_append.mp hnames).1 hisName
  · have hroot : .root ∉ path.components := fun hmem =>
      habsolute (isAbsolute_of_root_mem (components_eq_normalComponents hnormal ▸ hmem))
    have habove : ∀ step ∈ path.components.dropLast, step.IsStep := by
      intro step hstep
      have hmem := List.mem_of_mem_dropLast hstep
      apply isStep_of_mem_normalComponents (components_eq_normalComponents hnormal ▸ hmem)
      rintro rfl
      exact hroot hmem
    rw [← hparent, join_ofComponents habove hisName, ← hconcat, ofComponents_components hnormal]

end LayerLint.Path
