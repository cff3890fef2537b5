import LayerLint.Proofs.Path.Normal

/-! # Paths below a root

A path lies below a root if its normal form goes on where that of the root ends. The names behind
the root are then the segments of its root-relative form, unless they are cut at a backslash.
-/

namespace LayerLint.Path

variable {root path directory : Path} {name : String} {rest : List Component}

/-- The path lies strictly below the root. -/
def IsBelow (root path : Path) : Prop :=
  ∃ rest, rest ≠ [] ∧ path.normalComponents = root.normalComponents ++ rest

theorem segments_joinWith (items : List String) :
    segments (Text.joinWith "/" items) = items.flatMap segments := by
  by_cases hne : items = []
  · subst hne
    decide
  · have hpieces : Text.pieces (fun c => c == '/' || c == '\\') (Text.joinWith "/" items) =
        items.flatMap (Text.pieces fun c => c == '/' || c == '\\') :=
      Text.pieces_joinWith_of_cut (c := '/') (by simp) hne
    rw [segments, hpieces, List.filter_flatMap]
    rfl

theorem segments_eq_singleton (hempty : name ≠ "") (hslash : '/' ∉ name.toList)
    (hbackslash : '\\' ∉ name.toList) : segments name = [name] := by
  have huncut : ∀ c ∈ name.toList, (c == '/' || c == '\\') = false := by
    intro c hc
    have hne : c ≠ '/' := fun heq => hslash (heq ▸ hc)
    have hne' : c ≠ '\\' := fun heq => hbackslash (heq ▸ hc)
    simp [hne, hne']
  rw [segments, Text.pieces_eq_singleton huncut]
  simp [hempty]

theorem relativeTo_of_append (h : path.normalComponents = root.normalComponents ++ rest) :
    root.relativeTo path = Text.joinWith "/" ((rest.filter fun component =>
      component != .root && component != .here).map Component.text) := by
  simp only [relativeTo, h, List.drop_left]
  rw [if_pos (List.isPrefixOf_iff_prefix.mpr (List.prefix_append _ _))]

/-- Names behind the root are all that the root-relative form is made of. -/
theorem relativeTo_of_names {names : List String}
    (h : path.normalComponents = root.normalComponents ++ names.map .name) :
    root.relativeTo path = Text.joinWith "/" names := by
  have hkept : (names.map Component.name).filter (fun component =>
      component != .root && component != .here) = names.map .name := by
    rw [List.filter_eq_self, List.forall_mem_map]
    exact fun _ _ => rfl
  have htexts : (names.map Component.name).map Component.text = names := by
    rw [List.map_map]
    exact List.map_id names
  rw [relativeTo_of_append h, hkept, htexts]

/-- A name behind the root is a segment of the root-relative form. -/
theorem mem_segments_relativeTo (h : path.normalComponents = root.normalComponents ++ rest)
    (hname : .name name ∈ rest) (hempty : name ≠ "") (hslash : '/' ∉ name.toList)
    (hbackslash : '\\' ∉ name.toList) : name ∈ segments (root.relativeTo path) := by
  rw [relativeTo_of_append h, segments_joinWith, List.mem_flatMap]
  refine ⟨name, List.mem_map.mpr ⟨.name name, ?_, rfl⟩, ?_⟩
  · rw [List.mem_filter]
    exact ⟨hname, rfl⟩
  · rw [segments_eq_singleton hempty hslash hbackslash]
    exact List.mem_singleton_self name

/-- A name at the end stays where it is when a path is brought into normal form. -/
theorem normalComponents_of_concat {above : List Component}
    (h : path.components = above ++ [.name name]) :
    path.normalComponents = (above.foldl fold []).reverse ++ [.name name] := by
  rw [normalComponents, h, List.foldl_append]
  simp [fold]

theorem components_of_fileName? (h : path.fileName? = some name) :
    path.components = path.components.dropLast ++ [.name name] := by
  obtain ⟨last, hlast, hname⟩ := Option.bind_eq_some_iff.mp h
  obtain rfl : last = .name name := by
    cases last <;> simp_all [Component.name?]
  exact (List.dropLast_append_getLast? _ hlast).symm

theorem components_of_entry? (h : path.entry? = some (directory.key, name)) :
    path.components = directory.components ++ [.name name] := by
  simp only [key, entry?, keyOf, Option.map_eq_some_iff, Prod.mk.injEq] at h
  obtain ⟨_, hname, ⟨-, habove⟩, rfl⟩ := h
  rw [← habove, ← components_of_fileName? hname]

end LayerLint.Path
