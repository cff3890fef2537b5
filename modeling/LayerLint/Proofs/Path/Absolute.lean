import LayerLint.Proofs.Path.Normal

/-! # Absolute paths

In normal form an absolute path goes from the root through names alone. It has a parent for each of
them, and whatever is joined to it is absolute again.
-/

namespace LayerLint.Path

variable {path : Path} {names : List String} {name : String}

/-- The path from the root through these names. -/
def ofNames (names : List String) : Path :=
  ofComponents (.root :: names.map .name)

theorem text_ofNames (names : List String) :
    (ofNames names).text = "/" ++ Text.joinWith "/" names := by
  have htexts : (names.map Component.name).map Component.text = names := by
    rw [List.map_map]
    exact List.map_id names
  rw [ofNames, ofComponents, htexts]

theorem isAbsolute_ofNames (names : List String) : (ofNames names).isAbsolute = true := by
  rw [isAbsolute, text_ofNames]
  exact Text.beginsWith_iff.mpr ⟨_, rfl⟩

theorem components_ofNames (h : ∀ name ∈ names, IsName name) :
    (ofNames names).components = .root :: names.map .name := by
  apply components_ofComponents_root
  intro step hstep
  obtain ⟨name, hname, rfl⟩ := List.mem_map.mp hstep
  exact .inr ⟨name, rfl, h name hname⟩

theorem foldl_fold_names (stack : List Component) (names : List String) :
    (names.map Component.name).foldl fold stack = (names.map Component.name).reverse ++ stack := by
  induction names generalizing stack with
  | nil => rfl
  | cons name rest ih => simp [ih, fold]

theorem normalComponents_ofNames (h : ∀ name ∈ names, IsName name) :
    (ofNames names).normalComponents = .root :: names.map .name := by
  rw [normalComponents, components_ofNames h, List.foldl_cons]
  exact (congrArg List.reverse (foldl_fold_names [.root] names)).trans (by simp)

theorem normalize_ofNames (h : ∀ name ∈ names, IsName name) :
    (ofNames names).normalize = ofNames names := by
  rw [normalize, normalComponents_ofNames h, ofNames]

/-- A step from below the root leads to below the root. -/
theorem exists_names_of_fold {step : Component} (hstep : step.IsStep)
    (h : ∀ name ∈ names, IsName name) :
    ∃ names' : List String, (∀ name ∈ names', IsName name) ∧
      fold (names.map Component.name ++ [.root]) step = names'.map Component.name ++ [.root] := by
  rcases hstep with rfl | ⟨name, rfl, hname⟩
  · cases names with
    | nil => exact ⟨[], h, rfl⟩
    | cons last above => exact ⟨above, (List.forall_mem_cons.mp h).2, rfl⟩
  · exact ⟨name :: names, List.forall_mem_cons.mpr ⟨hname, h⟩, rfl⟩

theorem exists_names_of_foldl {steps : List Component} (hsteps : ∀ step ∈ steps, step.IsStep)
    (h : ∀ name ∈ names, IsName name) :
    ∃ names' : List String, (∀ name ∈ names', IsName name) ∧
      steps.foldl fold (names.map Component.name ++ [.root]) =
        names'.map Component.name ++ [.root] := by
  induction steps generalizing names with
  | nil => exact ⟨names, h, rfl⟩
  | cons step rest ih =>
      obtain ⟨hstep, hrest⟩ := List.forall_mem_cons.mp hsteps
      obtain ⟨names', h', heq⟩ := exists_names_of_fold hstep h
      rw [List.foldl_cons, heq]
      exact ih hrest h'

theorem exists_normalize_eq_ofNames (h : path.isAbsolute = true) :
    ∃ names : List String, (∀ name ∈ names, IsName name) ∧ path.normalize = ofNames names := by
  obtain ⟨steps, hsteps, ⟨-, hcomponents⟩ | ⟨hrelative, -⟩⟩ := path.components_cases
  · have hnone : ∀ name ∈ ([] : List String), IsName name := by simp
    obtain ⟨names, hnames, heq⟩ := exists_names_of_foldl hsteps hnone
    refine ⟨names.reverse, fun name hname => hnames name (List.mem_reverse.mp hname), ?_⟩
    have hfold : path.components.foldl fold [] = names.map Component.name ++ [.root] := by
      rw [hcomponents]
      exact heq
    rw [normalize, normalComponents, hfold, ofNames]
    simp
  · rw [hrelative] at h
    cases h

theorem exists_normalComponents_eq (h : path.isAbsolute = true) :
    ∃ names : List String, (∀ name ∈ names, IsName name) ∧
      path.normalComponents = .root :: names.map .name := by
  obtain ⟨names, hnames, heq⟩ := exists_normalize_eq_ofNames h
  refine ⟨names, hnames, ?_⟩
  rw [← normalComponents_normalize, heq, normalComponents_ofNames hnames]

theorem root_not_mem_fold {stack : List Component} {component : Component} (h : .root ∉ stack)
    (hne : component ≠ .root) : .root ∉ fold stack component := by
  unfold fold
  split
  next => exact h
  next =>
    split
    next => exact fun hmem => h (List.mem_cons_of_mem _ hmem)
    next => exact h
    next => simpa using h
  next => simpa using ⟨Ne.symm hne, h⟩

theorem root_not_mem_foldl {stack taken : List Component} (h : .root ∉ stack)
    (htaken : .root ∉ taken) : .root ∉ taken.foldl fold stack := by
  induction taken generalizing stack with
  | nil => exact h
  | cons component rest ih =>
      rw [List.mem_cons, not_or] at htaken
      exact ih (root_not_mem_fold h (Ne.symm htaken.1)) htaken.2

/-- Only in an absolute path the root is left by dots. -/
theorem isAbsolute_of_root_mem (h : .root ∈ path.normalComponents) : path.isAbsolute = true := by
  obtain ⟨steps, hsteps, ⟨habsolute, -⟩ | ⟨-, heq⟩⟩ := path.components_cases
  · exact habsolute
  · have hsteps : .root ∉ steps := fun hmem => not_isStep_root (hsteps _ hmem)
    have hcomponents : .root ∉ path.components := by
      rcases heq with heq | heq <;> simpa [heq] using hsteps
    rw [normalComponents, List.mem_reverse] at h
    exact (root_not_mem_foldl (List.not_mem_nil) hcomponents h).elim

/-- The names among the components of a path. -/
def namesOf (path : Path) : List String :=
  path.components.filterMap Component.name?

theorem namesOf_ofNames (h : ∀ name ∈ names, IsName name) : namesOf (ofNames names) = names := by
  rw [namesOf, components_ofNames h, List.filterMap_cons_none rfl, List.filterMap_map]
  exact List.filterMap_some

theorem eq_of_ofNames_eq {others : List String} (h : ∀ name ∈ names, IsName name)
    (hothers : ∀ name ∈ others, IsName name) (heq : ofNames names = ofNames others) :
    names = others := by
  rw [← namesOf_ofNames h, heq, namesOf_ofNames hothers]

/-- Absolute paths in normal form are told apart by their names. -/
theorem ofNames_namesOf (h : path.isAbsolute = true) (hnormal : path.normalize = path) :
    ofNames (namesOf path) = path := by
  obtain ⟨names, hnames, heq⟩ := exists_normalize_eq_ofNames h
  rw [← hnormal, heq, namesOf_ofNames hnames]

theorem isAbsolute_normalize (h : path.isAbsolute = true) : path.normalize.isAbsolute = true := by
  obtain ⟨names, -, heq⟩ := exists_normalize_eq_ofNames h
  rw [heq]
  exact isAbsolute_ofNames names

theorem isAbsolute_join {base : Path} (h : base.isAbsolute = true) (path : Path) :
    (base.join path).isAbsolute = true := by
  obtain ⟨rest, hrest⟩ := Text.beginsWith_iff.mp h
  unfold join
  split
  next habsolute => exact habsolute
  next =>
    split <;> refine Text.beginsWith_iff.mpr ?_ <;> dsimp only <;> rw [hrest]
    · exact ⟨rest ++ path.text, String.append_assoc ..⟩
    · exact ⟨rest ++ "/" ++ path.text, by simp [String.append_assoc]⟩

theorem toPosix_eq_self {text : String} (h : '\\' ∉ text.toList) : toPosix text = text := by
  have hkept : text.toList.map (fun c => if c = '\\' then '/' else c) = text.toList := by
    conv_rhs => rw [← List.map_id text.toList]
    apply List.map_congr_left
    intro c hc
    have hne : c ≠ '\\' := fun heq => h (heq ▸ hc)
    rw [if_neg hne, id]
  rw [← String.toList_inj, toPosix, String.toList_map, hkept]

theorem toPosix_ne_empty (h : path.isAbsolute = true) : toPosix path.text ≠ "" := by
  obtain ⟨rest, hrest⟩ := Text.beginsWith_iff.mp h
  rw [hrest, toPosix]
  intro hempty
  simpa using congrArg String.toList hempty

theorem parent?_ofNames_concat (h : ∀ name ∈ names, IsName name) (hname : IsName name) :
    (ofNames (names ++ [name])).parent? = some (ofNames names) := by
  have hall : ∀ other ∈ names ++ [name], IsName other := by
    rw [List.forall_mem_append, List.forall_mem_singleton]
    exact ⟨h, hname⟩
  have hcomponents : (ofNames (names ++ [name])).components =
      (.root :: names.map .name) ++ [.name name] := by
    rw [components_ofNames hall, List.map_append]
    rfl
  rw [parent?, hcomponents]
  simp only [List.getLast?_concat, List.dropLast_concat]
  rfl

theorem fileName?_ofNames_concat (h : ∀ other ∈ names ++ [name], IsName other) :
    (ofNames (names ++ [name])).fileName? = some name := by
  rw [fileName?, components_ofNames h, List.map_append, ← List.cons_append]
  simp only [List.map_singleton, List.getLast?_concat, Option.bind_some]
  rfl

theorem text_ofNames_concat (names : List String) (name : String) :
    (ofNames (names ++ [name])).text =
      (if names = [] then "/" else (ofNames names).text ++ "/") ++ name := by
  rw [text_ofNames]
  split
  next hnil =>
    subst hnil
    rfl
  next hne =>
    rw [Text.joinWith_append hne (by simp), text_ofNames]
    simp [Text.joinWith, String.append_assoc]

/-- Behind its root slash, an absolute path in normal form does not end in a slash. -/
theorem beforeEnd?_ofNames (h : ∀ name ∈ names, IsName name) (hne : names ≠ []) :
    Text.beforeEnd? "/" (ofNames names).text = none := by
  obtain ⟨above, last, rfl⟩ := names.eq_nil_or_concat'.resolve_left hne
  obtain ⟨hempty, -, -, hslash⟩ := h last (by simp)
  rw [text_ofNames_concat, Text.beforeEnd?, Option.map_eq_none_iff,
    Option.eq_none_iff_forall_ne_some]
  intro rest hrest
  rw [List.isSuffixOf?_eq_some_iff_append_eq, String.toList_append] at hrest
  obtain ⟨chars, c, hlast⟩ := last.toList.eq_nil_or_concat'.resolve_left (by simpa using hempty)
  rw [hlast, ← List.append_assoc] at hrest
  obtain rfl : '/' = c := List.singleton_inj.mp (List.append_inj' hrest rfl).2
  exact hslash (by simp [hlast])

/-- A relative path is written behind the directory that it starts from. -/
theorem text_join_ofNames (h : ∀ name ∈ names, IsName name) (hrelative : path.isAbsolute = false) :
    ((ofNames names).join path).text =
      (if names = [] then "/" else (ofNames names).text ++ "/") ++ path.text := by
  rw [join, hrelative, if_neg Bool.false_ne_true]
  split
  next hslash =>
    have hroot : names = [] := by
      apply Classical.byContradiction
      intro hne
      rw [beforeEnd?_ofNames h hne] at hslash
      rcases hslash with hempty | hsome
      · rw [text_ofNames] at hempty
        simpa using congrArg String.toList hempty
      · cases hsome
    subst hroot
    rw [if_pos rfl]
    rfl
  next hslash =>
    have hne : names ≠ [] := by
      rintro rfl
      exact hslash (.inr (by decide))
    rw [if_neg hne]

theorem IsName.isAbsolute_eq (hname : IsName name) : (Path.mk name).isAbsolute = false := by
  rw [← Bool.not_eq_true]
  intro habsolute
  obtain ⟨rest, rfl⟩ := Text.beginsWith_iff.mp habsolute
  exact hname.2.2.2 (by simp)

/-- A name is written behind the directory that it stands in. -/
theorem join_ofNames (h : ∀ name ∈ names, IsName name) (hname : IsName name) :
    (ofNames names).join ⟨name⟩ = ofNames (names ++ [name]) := by
  have htext : ((ofNames names).join ⟨name⟩).text = (ofNames (names ++ [name])).text :=
    (text_join_ofNames h hname.isAbsolute_eq).trans (text_ofNames_concat names name).symm
  exact congrArg Path.mk htext

end LayerLint.Path
