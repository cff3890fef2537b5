import LayerLint.Proofs.Path.RelativeForm

/-! # The last component of a path

Below a root the last component of a path is the last segment of its relative form. In a path in
normal form it can be replaced by another name, and a suffix behind the text of such a path goes to
its last name.
-/

namespace LayerLint.Path

variable {path root : Path} {rest : List Component}

theorem isStep_of_mem_normalComponents {component : Component}
    (h : component ∈ path.normalComponents) (hroot : component ≠ .root) : component.IsStep := by
  obtain ⟨steps, hsteps, heq | heq⟩ := (isStack_components path).reverse_cases
  · exact hsteps component ((List.mem_cons.mp (heq ▸ h)).resolve_left hroot)
  · exact hsteps component (heq ▸ h)

/-- Below the root, components without backslashes are the segments of the relative form. -/
theorem segments_relativeTo_of_append (h : path.normalComponents = root.normalComponents ++ rest)
    (hclean : ∀ component ∈ rest, '\\' ∉ component.text.toList) :
    segments (root.relativeTo path) = (rest.filter fun component =>
      component != .root && component != .here).map Component.text := by
  rw [relativeTo_of_append h]
  apply segments_joinWith_of_uncut
  rw [List.forall_mem_map]
  intro component hcomponent
  obtain ⟨hmem, hkept⟩ := List.mem_filter.mp hcomponent
  have hnormal : component ∈ path.normalComponents := h ▸ List.mem_append_right _ hmem
  have hstep : component.IsStep := by
    apply isStep_of_mem_normalComponents hnormal
    rintro rfl
    cases hkept
  exact ⟨hstep.text_ne.1, hstep.slash_not_mem, hclean component hmem⟩

/-- A step at the end is the last segment. -/
theorem segments_relativeTo_of_concat {last : Component}
    (h : path.normalComponents = root.normalComponents ++ (rest ++ [last])) (hroot : last ≠ .root)
    (hclean : ∀ component ∈ rest ++ [last], '\\' ∉ component.text.toList) :
    segments (root.relativeTo path) = (rest.filter fun component =>
      component != .root && component != .here).map Component.text ++ [last.text] := by
  have hmem : last ∈ path.normalComponents := by simp [h]
  have hstep : last.IsStep := isStep_of_mem_normalComponents hmem hroot
  have hkept : (last != .root && last != .here) = true := by
    rcases hstep with rfl | ⟨name, rfl, -⟩ <;> rfl
  rw [segments_relativeTo_of_append h hclean, List.filter_append, List.map_append,
    List.filter_singleton, hkept]
  rfl

/-- What is left of normal components without the last one is normal. -/
theorem IsStack.tail {component : Component} {stack : List Component}
    (h : IsStack (component :: stack)) (hroot : component ≠ .root) : IsStack stack := by
  generalize hwhole : component :: stack = whole at h
  cases h with
  | root =>
      cases hwhole
      exact (hroot rfl).elim
  | climbs count =>
      cases count with
      | zero => cases hwhole
      | succ count =>
          cases hwhole
          exact .climbs count
  | push hname h =>
      cases hwhole
      exact h

/-! ## Another last component -/

variable {other : Path} {above : List Component} {last : Component} {suffix : String}

/-- What is below a root is in a directory at or below it. -/
theorem IsBelow.exists_front (h : root.IsBelow path)
    (heq : path.normalComponents = above ++ [last]) :
    ∃ front, above = root.normalComponents ++ front := by
  obtain ⟨rest, hne, hbelow⟩ := h
  obtain ⟨front, final, rfl⟩ := rest.eq_nil_or_concat'.resolve_left hne
  rw [heq, ← List.append_assoc] at hbelow
  exact ⟨front, (List.append_inj' hbelow rfl).1⟩

theorem isStack_above (hnormal : path.normalize.components = path.components)
    (hpath : path.components = above ++ [last]) (hroot : last ≠ .root) : IsStack above.reverse := by
  have hwhole : IsStack (above ++ [last]).reverse := by
    rw [← hpath, ← hnormal, components_normalize, normalComponents, List.reverse_reverse]
    exact isStack_components path
  rw [List.reverse_concat] at hwhole
  exact hwhole.tail hroot

/-- Another name at the end of a normal path leaves it normal. -/
theorem normalComponents_of_renamed {name : String}
    (hnormal : path.normalize.components = path.components)
    (hpath : path.components = above ++ [last]) (hroot : last ≠ .root)
    (hother : other.components = above ++ [.name name]) :
    other.normalComponents = above ++ [.name name] := by
  have habove : above.foldl fold [] = above.reverse := by
    simpa using (isStack_above hnormal hpath hroot).foldl_fold_reverse
  rw [normalComponents_of_concat hother, habove, List.reverse_reverse]

/-- A name with a suffix is a name: only a dot could become a pair of dots, and it is no name. -/
theorem isName_append_suffix {name : String} (hname : IsName name)
    (hdot : Text.beginsWith "." suffix = true) (hslash : '/' ∉ suffix.toList) :
    IsName (name ++ suffix) := by
  obtain ⟨rest, rfl⟩ := Text.beginsWith_iff.mp hdot
  obtain ⟨hempty, hhere, -, hname⟩ := hname
  obtain ⟨c, chars, hlist⟩ := List.exists_cons_of_ne_nil (mt String.toList_eq_nil_iff.mp hempty)
  have hne (text : String) (h : text.toList ≠ c :: (chars ++ '.' :: rest.toList)) :
      name ++ ("." ++ rest) ≠ text := by
    rintro rfl
    exact h (by simp [hlist])
  refine ⟨hne "" (by simp), hne "." (by simp), hne ".." ?_, ?_⟩
  · intro heq
    obtain ⟨rfl, hrest⟩ := List.cons.inj heq
    obtain rfl : chars = [] := by
      cases chars with
      | nil => rfl
      | cons => simp at hrest
    exact hhere (String.toList_inj.mp hlist)
  · rw [String.toList_append, List.mem_append, not_or]
    exact ⟨hname, hslash⟩

/-- An absolute path in normal form ends in a name behind other names. -/
theorem exists_eq_ofNames_concat (habsolute : path.isAbsolute = true)
    (hnormal : path.normalize = path) {name : String}
    (hpath : path.components = above ++ [.name name]) :
    ∃ front : List String, (∀ other ∈ front ++ [name], IsName other) ∧
      path = ofNames (front ++ [name]) ∧ above = .root :: front.map .name := by
  obtain ⟨names, hnames, rfl⟩ : ∃ names : List String, (∀ name ∈ names, IsName name) ∧
      path = ofNames names := hnormal ▸ exists_normalize_eq_ofNames habsolute
  rw [components_ofNames hnames] at hpath
  obtain rfl | ⟨front, last, rfl⟩ := names.eq_nil_or_concat'
  · cases above <;> simp at hpath
  · rw [List.map_append, ← List.cons_append] at hpath
    obtain ⟨rfl, hlast⟩ := List.append_inj' hpath rfl
    obtain rfl : last = name := by simpa using hlast
    exact ⟨front, hnames, rfl, rfl⟩

/-- The text of an absolute path in normal form may go on with a suffix. -/
theorem components_append_suffix (habsolute : path.isAbsolute = true)
    (hnormal : path.normalize = path) {name : String}
    (hpath : path.components = above ++ [.name name])
    (hdot : Text.beginsWith "." suffix = true) (hslash : '/' ∉ suffix.toList) :
    (Path.mk (path.text ++ suffix)).components = above ++ [.name (name ++ suffix)] := by
  obtain ⟨front, hnames, rfl, rfl⟩ := exists_eq_ofNames_concat habsolute hnormal hpath
  obtain ⟨hfront, hname⟩ := List.forall_mem_append.mp hnames
  have hlonger := isName_append_suffix (List.forall_mem_singleton.mp hname) hdot hslash
  have htext : Path.mk ((ofNames (front ++ [name])).text ++ suffix) =
      ofNames (front ++ [name ++ suffix]) := by
    rw [text_ofNames_concat, String.append_assoc, ← text_ofNames_concat]
  rw [htext, components_ofNames, List.map_append]
  · rfl
  · rw [List.forall_mem_append, List.forall_mem_singleton]
    exact ⟨hfront, hlonger⟩

end LayerLint.Path
