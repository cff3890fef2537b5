import LayerLint.Proofs.Context.Candidate
import LayerLint.Proofs.FileName
import LayerLint.Proofs.Path.LastSegment
import LayerLint.Rule.KebabCase
import LayerLint.Rule.LayerName

/-! # The two rules on names

The rule on kebab case leaves names with an underscore to the rule on layer directories, which in
turn looks at directories only. If both are content, every name below a layer is a layer or in kebab
case. The one thing that they ask beyond this is that no directory takes the bare name of a layer.
-/

namespace LayerLint.Rule

variable {context : Context} {layers : List String} {relative name : String}
variable {path : Path}

/-- A path as a walk of a root finds it: in normal form, at or below the root, and without
backslashes. -/
structure IsWalkedPath (root path : Path) : Prop where
  normal : path.normalize = path
  below : root.normalize.isAtOrBelow path = true
  clean : ∀ component ∈ path.components, '\\' ∉ component.text.toList

/-- Some segment of the relative form names a layer. -/
def IsInLayerScope (context : Context) (path : Path) : Prop :=
  ∃ layer ∈ context.config.layerDirs, layer ∈ Path.segments (context.relative path)

/-- What is left of a layer without its underscore, unless that is a layer too. -/
def IsBareName (layers : List String) (name : String) : Prop :=
  "_" ++ name ∈ layers ∧ name ∉ layers

/-- Below layers, directories are named by layers or in kebab case, and so is each token of a file's
stem. The path of such a file has no capital. -/
structure NamesInOrder (context : Context) : Prop where
  directory_named : ∀ directory ∈ context.directories, context.root.IsBelow directory →
    IsInLayerScope context directory → ∃ name, directory.IsNamed name ∧
      (name ∈ context.config.layerDirs ∨ FileName.IsKebabWord name)
  file_named : ∀ file ∈ context.candidates, ∀ name, file.fileName? = some name →
    ∀ token ∈ FileName.tokens (FileName.stem name), FileName.IsKebabWord token
  not_uppercase : ∀ file ∈ context.candidates, ∀ c ∈ (context.relative file).toList,
    ¬ Text.isUppercase c = true

/-- No directory below the root has the bare name of a layer. -/
def NoBareNames (context : Context) : Prop :=
  ∀ directory ∈ context.directories, context.root.IsBelow directory →
    ∀ name, directory.IsNamed name → ¬ IsBareName context.config.layerDirs name

/-! ## Walked paths -/

theorem isInLayerScope_iff :
    IsInLayerScope context path ↔ context.inLayerScope (context.relative path) = true := by
  rw [Context.inLayerScope, Layer.occursIn, List.any_eq_true, IsInLayerScope]
  simp [and_comm]

namespace IsWalkedPath

variable (hwalked : IsWalkedPath context.root path)

include hwalked

theorem normalComponents_prefix : context.root.normalComponents <+: path.components := by
  rw [Path.components_eq_normalComponents hwalked.normal, ← Path.isAtOrBelow_normalize,
    hwalked.normal]
  exact hwalked.below

theorem getLast?_segments_iff : (Path.segments (context.relative path)).getLast? = some name ↔
    context.root.IsBelow path ∧ path.IsNamed name :=
  Path.getLast?_segments_relativeTo_iff hwalked.normal hwalked.normalComponents_prefix
    hwalked.clean

theorem segments_eq_nil (h : ¬ ∃ name, context.root.IsBelow path ∧ path.IsNamed name) :
    Path.segments (context.relative path) = [] :=
  Path.segments_relativeTo_eq_nil hwalked.normal hwalked.normalComponents_prefix h

theorem exists_isNamed (h : IsInLayerScope context path) :
    ∃ name, context.root.IsBelow path ∧ path.IsNamed name := by
  obtain ⟨layer, -, hlayer⟩ := h
  refine Classical.byContradiction fun hnone => ?_
  rw [hwalked.segments_eq_nil hnone] at hlayer
  cases hlayer

section

variable (hup : ∀ component ∈ path.components, component = .up)

include hup

theorem exists_relative_of_up :
    ∃ count, context.relative path = Text.joinWith "/" (List.replicate count "..") :=
  Path.exists_relativeTo_of_up hwalked.normal hwalked.normalComponents_prefix hup

theorem mem_layerDirs_of_up (h : IsInLayerScope context path) : ".." ∈ context.config.layerDirs := by
  obtain ⟨layer, hlayer, hsegment⟩ := h
  obtain ⟨count, hrelative⟩ := hwalked.exists_relative_of_up hup
  rw [hrelative, Path.segments_joinWith_of_uncut] at hsegment
  · rwa [List.eq_of_mem_replicate hsegment] at hlayer
  · intro item hitem
    rw [List.eq_of_mem_replicate hitem]
    decide

theorem not_isUppercase_of_up :
    ∀ c ∈ (context.relative path).toList, ¬ Text.isUppercase c = true := by
  intro c hc
  obtain ⟨count, hrelative⟩ := hwalked.exists_relative_of_up hup
  rw [hrelative] at hc
  have hchar : c = '/' ∨ c = '.' := by
    obtain hslash | ⟨item, hitem, hdot⟩ := Text.mem_toList_joinWith hc
    · exact .inl (by simpa using hslash)
    · rw [List.eq_of_mem_replicate hitem] at hdot
      exact .inr (by simpa using hdot)
  obtain rfl | rfl := hchar <;> decide

end

end IsWalkedPath

/-! ## Names -/

theorem isBareName_iff : IsBareName layers name ↔ name ∈ LayerName.bareNames layers := by
  rw [LayerName.bareNames, List.mem_filter, List.mem_map, IsBareName]
  simp only [List.contains_iff_mem, Bool.not_eq_true', ← Bool.not_eq_true]
  refine and_congr_left fun hname => ?_
  constructor
  · intro hlayer
    refine ⟨_, hlayer, ?_⟩
    rw [Text.afterStart?_eq_some_iff.mpr rfl, Option.getD_some]
  · rintro ⟨layer, hlayer, hbare⟩
    cases hrest : Text.afterStart? "_" layer with
    | none =>
        -- a layer without an underscore is left as it is, and is a layer
        rw [hrest, Option.getD_none] at hbare
        exact (hname (hbare ▸ hlayer)).elim
    | some rest =>
        rw [hrest, Option.getD_some] at hbare
        rwa [← hbare, ← Text.afterStart?_eq_some_iff.mp hrest]

/-! ## Directories -/

theorem KebabCase.checkDirectory_eq_none_iff :
    KebabCase.checkDirectory context path = none ↔ ∀ name, path.fileName? = some name →
      IsInLayerScope context path → name ∈ context.config.layerDirs ∨
        Text.beginsWith "_" name = true ∨ FileName.IsKebabWord name := by
  have hempty : context.relative path = "" → ¬ IsInLayerScope context path := by
    rintro hrelative ⟨layer, -, hlayer⟩
    rw [hrelative] at hlayer
    cases hlayer
  rw [checkDirectory, Option.bind_eq_none_iff]
  refine forall_congr' fun name => imp_congr_right fun _ => ?_
  rw [← FileName.isKebabCase_iff, isGoodDirectory]
  simp only [ite_eq_left_iff, reduceCtorEq, imp_false, Bool.not_eq_true, Bool.not_eq_false]
  simp only [Bool.or_eq_true, Bool.not_eq_true', String.isEmpty_iff, List.contains_iff_mem,
    ← Bool.not_eq_true, ← isInLayerScope_iff]
  rw [or_iff_right_of_imp hempty, or_assoc, imp_iff_not_or]

theorem LayerName.complaints_eq_nil (h : Path.segments relative = []) :
    LayerName.complaints layers relative = [] := by
  rw [complaints, h]
  rfl

theorem LayerName.complaints_eq_nil_iff (h : (Path.segments relative).getLast? = some name) :
    LayerName.complaints layers relative = [] ↔ ¬ IsBareName layers name ∧
      (Layer.occursIn layers relative = true → Text.beginsWith "_" name = true →
        name ∈ layers) := by
  simp [complaints, h, isBareName_iff]

/-- Neither rule reports the directory. -/
def IsDirectoryPassed (context : Context) (directory : Path) : Prop :=
  KebabCase.checkDirectory context directory = none ∧
    LayerName.complaints context.config.layerDirs (context.relative directory) = []

section

variable (hlast : (Path.segments (context.relative path)).getLast? = some name)

include hlast

/-- A name with an underscore that is no layer is exempt from the one rule and reported by the
other. -/
theorem isDirectoryPassed_iff_of_fileName? (hname : path.fileName? = some name) :
    IsDirectoryPassed context path ↔ (IsInLayerScope context path →
        name ∈ context.config.layerDirs ∨ FileName.IsKebabWord name) ∧
      ¬ IsBareName context.config.layerDirs name := by
  rw [IsDirectoryPassed, KebabCase.checkDirectory_eq_none_iff,
    LayerName.complaints_eq_nil_iff hlast, ← Context.inLayerScope, ← isInLayerScope_iff]
  simp only [hname, Option.some.injEq, forall_eq']
  constructor
  · rintro ⟨hgood, hbare, hmarked⟩
    refine ⟨fun hscope => ?_, hbare⟩
    obtain hlayer | hmark | hword := hgood hscope
    · exact .inl hlayer
    · exact .inl (hmarked hscope hmark)
    · exact .inr hword
  · rintro ⟨hgood, hbare⟩
    refine ⟨fun hscope => (hgood hscope).imp_right .inr, hbare, fun hscope hmark => ?_⟩
    exact (hgood hscope).resolve_right fun hword => hword.not_beginsWith hmark

/-- Pairs of dots are no entry, and below a layer they are a layer themselves. -/
theorem isDirectoryPassed_iff_of_up (hwalked : IsWalkedPath context.root path)
    (hup : ∀ component ∈ path.components, component = .up) (hname : name = "..") :
    IsDirectoryPassed context path ↔ (IsInLayerScope context path →
        name ∈ context.config.layerDirs ∨ FileName.IsKebabWord name) ∧
      ¬ IsBareName context.config.layerDirs name := by
  subst hname
  rw [IsDirectoryPassed, KebabCase.checkDirectory_eq_none_iff, Path.fileName?_eq_none_of_up hup,
    LayerName.complaints_eq_nil_iff hlast]
  constructor
  · rintro ⟨-, hbare, -⟩
    exact ⟨fun hscope => .inl (hwalked.mem_layerDirs_of_up hup hscope), hbare⟩
  · rintro ⟨-, hbare⟩
    exact ⟨by simp, hbare, fun _ hmark => absurd hmark (by decide)⟩

end

theorem IsWalkedPath.isDirectoryPassed_iff (hwalked : IsWalkedPath context.root path) :
    IsDirectoryPassed context path ↔
      (context.root.IsBelow path → IsInLayerScope context path → ∃ name, path.IsNamed name ∧
        (name ∈ context.config.layerDirs ∨ FileName.IsKebabWord name)) ∧
      (context.root.IsBelow path → ∀ name, path.IsNamed name →
        ¬ IsBareName context.config.layerDirs name) := by
  by_cases hnamed : ∃ name, context.root.IsBelow path ∧ path.IsNamed name
  · obtain ⟨name, hlower, hname⟩ := hnamed
    have hunique {other : String} : path.IsNamed other ↔ other = name :=
      ⟨fun hother => hother.eq hname, fun heq => heq ▸ hname⟩
    have hlast := hwalked.getLast?_segments_iff.mpr ⟨hlower, hname⟩
    simp only [hunique, exists_eq_left, forall_eq, hlower, forall_const]
    obtain hfile | ⟨hdots, hup⟩ := hname.cases hwalked.normal
    · exact isDirectoryPassed_iff_of_fileName? hlast hfile
    · exact isDirectoryPassed_iff_of_up hlast hwalked hup hdots
  · have hscope : ¬ IsInLayerScope context path := mt hwalked.exists_isNamed hnamed
    have hpassed : IsDirectoryPassed context path :=
      ⟨KebabCase.checkDirectory_eq_none_iff.mpr fun _ _ h => (hscope h).elim,
        LayerName.complaints_eq_nil (hwalked.segments_eq_nil hnamed)⟩
    refine iff_of_true hpassed ⟨fun _ h => (hscope h).elim, fun hlower name hname => ?_⟩
    exact (hnamed ⟨name, hlower, hname⟩).elim

/-! ## Files -/

theorem KebabCase.complaints_eq_nil_iff :
    KebabCase.complaints relative name = [] ↔
      (∀ token ∈ FileName.tokens (FileName.stem name), FileName.IsKebabWord token) ∧
        ∀ c ∈ relative.toList, ¬ Text.isUppercase c = true := by
  have htokens : FileName.tokens (FileName.stem name) ≠ [] := by
    simp [FileName.tokens, Text.pieces, List.splitOnP_ne_nil]
  obtain ⟨module, suffixes, hcons⟩ := List.exists_cons_of_ne_nil htokens
  simp only [complaints, hcons, List.forall_mem_cons, ← FileName.isKebabCase_iff]
  by_cases hmodule : FileName.isKebabCase module = true
  · rw [if_neg (by simp [hmodule])]
    cases hwrong : suffixes.filter fun token => !FileName.isKebabCase token with
    | nil =>
        have hsuffixes : ∀ token ∈ suffixes, FileName.isKebabCase token = true := by
          simpa using hwrong
        rw [and_iff_right ⟨hmodule, hsuffixes⟩]
        simp
    | cons token rest =>
        have hmem : token ∈ suffixes.filter fun token => !FileName.isKebabCase token :=
          hwrong ▸ List.mem_cons_self
        obtain ⟨hsuffix, htoken⟩ := List.mem_filter.mp hmem
        refine iff_of_false (by simp) fun hall => ?_
        simp [hall.1.2 token hsuffix] at htoken
  · simp [hmodule]

theorem KebabCase.checkFile_eq_nil_iff (hwalked : IsWalkedPath context.root path)
    (hscope : IsInLayerScope context path) :
    KebabCase.checkFile context path = [] ↔
      (∀ name, path.fileName? = some name →
        ∀ token ∈ FileName.tokens (FileName.stem name), FileName.IsKebabWord token) ∧
      ∀ c ∈ (context.relative path).toList, ¬ Text.isUppercase c = true := by
  obtain ⟨name, -, hname⟩ := hwalked.exists_isNamed hscope
  obtain hfile | ⟨-, hup⟩ := hname.cases hwalked.normal
  · simp only [checkFile, hfile, List.map_eq_nil_iff, complaints_eq_nil_iff, Option.some.injEq,
      forall_eq']
  · have hnone := Path.fileName?_eq_none_of_up hup
    rw [checkFile, hnone]
    exact iff_of_true rfl ⟨by simp, hwalked.not_isUppercase_of_up hup⟩

/-! ## Both rules together -/

theorem runs_eq_nil_iff (hkebab : kebabCase.isEnabled context.config = true)
    (hlayer : layerName.isEnabled context.config = true) :
    kebabCase.run context = [] ∧ layerName.run context = [] ↔
      (∀ directory ∈ context.directories, IsDirectoryPassed context directory) ∧
        ∀ file ∈ context.candidates, KebabCase.checkFile context file = [] := by
  rw [run, run, if_pos hkebab, if_pos hlayer]
  simp only [kebabCase, layerName, KebabCase.check, LayerName.check, List.append_eq_nil_iff,
    List.filterMap_eq_nil_iff, List.flatMap_eq_nil_iff, List.map_eq_nil_iff, IsDirectoryPassed,
    forall_and]
  rw [and_right_comm]

end LayerLint.Rule
