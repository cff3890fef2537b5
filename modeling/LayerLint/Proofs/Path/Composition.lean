import LayerLint.Proofs.Path.Join

/-! # Normal forms of joined paths

A path may be brought into normal form before another one is joined to it: in the end nothing else
comes out. What a normal form is made of depends on where it starts: an absolute one goes down from
the root by names alone, and a relative one first climbs as often as there is nothing to take back.
-/

namespace LayerLint.Path

variable {path : Path} {stack : List Component}

/-- A stack of normal components is the root below names, or pairs of dots below them. -/
theorem IsStack.exists_reverse_eq (h : IsStack stack) :
    ∃ names : List String, (∀ name ∈ names, IsName name) ∧
      (stack.reverse = .root :: names.map .name ∨
        ∃ climbs, stack.reverse = way climbs names) := by
  induction h with
  | root => exact ⟨[], List.forall_mem_nil _, .inl rfl⟩
  | climbs count =>
      exact ⟨[], List.forall_mem_nil _, .inr ⟨count, by simp [way]⟩⟩
  | @push text stack hname h ih =>
      obtain ⟨names, hnames, heq⟩ := ih
      refine ⟨names ++ [text], ?_, ?_⟩
      · rw [List.forall_mem_append, List.forall_mem_singleton]
        exact ⟨hnames, hname⟩
      · rcases heq with heq | ⟨climbs, heq⟩
        · exact .inl (by rw [List.reverse_cons, heq, List.map_append]; rfl)
        · refine .inr ⟨climbs, ?_⟩
          rw [List.reverse_cons, heq, way, way, List.map_append, List.append_assoc]
          rfl

/-- In normal form a relative path climbs first and then goes down by names. -/
theorem exists_normalComponents_eq_way (h : path.isAbsolute = false) :
    ∃ climbs names, (∀ name ∈ names, IsName name) ∧ path.normalComponents = way climbs names := by
  obtain ⟨names, hnames, heq | ⟨climbs, heq⟩⟩ := (isStack_components path).exists_reverse_eq
  · have hroot : Component.root ∈ path.normalComponents := by
      rw [normalComponents, heq]
      exact List.mem_cons_self
    rw [isAbsolute_of_root_mem hroot] at h
    cases h
  · exact ⟨climbs, names, hnames, heq⟩

theorem here_not_mem_way (climbs : Nat) (names : List String) : .here ∉ way climbs names := by
  simp [way]

theorem text_ofComponents_way {climbs : Nat} {names : List String}
    (h : ∀ name ∈ names, IsName name) : (ofComponents (way climbs names)).text =
      Text.joinWith "/" (List.replicate climbs ".." ++ names) := by
  have htexts : (way climbs names).map Component.text = List.replicate climbs ".." ++ names := by
    rw [way, List.map_append, List.map_replicate, List.map_map]
    exact congrArg (List.replicate climbs ".." ++ ·) (List.map_id names)
  rw [ofComponents_eq_joinWith (isStep_of_mem_way h), htexts]

theorem isAbsolute_normalize_eq (path : Path) : path.normalize.isAbsolute = path.isAbsolute := by
  rw [Bool.eq_iff_iff]
  constructor
  · intro habsolute
    obtain ⟨names, -, hroot⟩ := exists_normalComponents_eq habsolute
    apply isAbsolute_of_root_mem
    rw [← normalComponents_normalize, hroot]
    exact List.mem_cons_self
  · exact isAbsolute_normalize

/-- The normal form of a joined path is that of the path joined to a normal form. -/
theorem normalize_join_normalize (base path : Path) :
    (base.normalize.join path).normalize = (base.join path).normalize := by
  cases hpath : path.isAbsolute with
  | true => rw [join, join, hpath, if_pos rfl, if_pos rfl]
  | false => exact normalize_join_congr (normalComponents_normalize base) rfl hpath hpath

/-- Normal forms compose: nothing changes when a path is brought into normal form before something
is joined to it, or twice. The normal form of an absolute path is the root and names, that of a
relative one pairs of dots and then names, and so they are written. -/
theorem normalize_composes (path other : Path) :
    (path.join other).normalize = (path.normalize.join other).normalize ∧
    path.normalize.normalize = path.normalize ∧
    (path.isAbsolute = true → path.normalize.isAbsolute = true ∧
      .here ∉ path.normalize.components ∧ .up ∉ path.normalize.components ∧
      ∃ names : List String, (∀ name ∈ names, IsName name) ∧
        path.normalize.components = .root :: names.map .name ∧
        path.normalize.text = "/" ++ Text.joinWith "/" names) ∧
    (path.isAbsolute = false → path.normalize.isAbsolute = false ∧
      .here ∉ path.normalize.components ∧
      ∃ (climbs : Nat) (names : List String), (∀ name ∈ names, IsName name) ∧
        path.normalize.components = List.replicate climbs .up ++ names.map .name ∧
        path.normalize.text = Text.joinWith "/" (List.replicate climbs ".." ++ names)) := by
  refine ⟨(normalize_join_normalize path other).symm, normalize_normalize path, ?_, ?_⟩
  · intro habsolute
    obtain ⟨names, hnames, heq⟩ := exists_normalComponents_eq habsolute
    refine ⟨isAbsolute_normalize habsolute, ?_, ?_, names, hnames, ?_, ?_⟩
    · simp [components_normalize, heq]
    · simp [components_normalize, heq]
    · rw [components_normalize, heq]
    · rw [normalize, heq]
      exact text_ofNames names
  · intro hrelative
    obtain ⟨climbs, names, hnames, heq⟩ := exists_normalComponents_eq_way hrelative
    refine ⟨(isAbsolute_normalize_eq path).trans hrelative, ?_, climbs, names, hnames, ?_, ?_⟩
    · rw [components_normalize, heq]
      exact here_not_mem_way climbs names
    · rw [components_normalize, heq, way]
    · rw [normalize, heq, text_ofComponents_way hnames]

/-- An absolute path with dots above its root, and a relative one that climbs out of its start. -/
theorem normalize_composes_above_start :
    (Path.mk "/a/../../b/./c").normalize = ⟨"/b/c"⟩ ∧
      .up ∉ (Path.mk "/a/../../b/./c").normalize.components ∧
      (Path.mk "./a/../../b//c/").normalize = ⟨"../b/c"⟩ ∧
      .here ∉ (Path.mk "./a/../../b//c/").normalize.components := by
  have habsolute := (normalize_composes ⟨"/a/../../b/./c"⟩ ⟨""⟩).2.2.1 (by decide)
  have hrelative := (normalize_composes ⟨"./a/../../b//c/"⟩ ⟨""⟩).2.2.2 (by decide)
  exact ⟨by decide +kernel, habsolute.2.2.1, by decide +kernel, hrelative.2.1⟩

end LayerLint.Path
