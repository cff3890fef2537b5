import LayerLint.FileName
import LayerLint.Proofs.Text.Pieces

/-! # Modules and words in file names

The module that a name stands for is its first dot-separated token, and only a name that begins with
a dot stands for none. Words in kebab case are groups of letters and digits joined by hyphens.
-/

namespace LayerLint.FileName

variable {name module word : String}

theorem moduleName?_eq_some_iff :
    moduleName? name = some module ↔ module ≠ "" ∧ (tokens name).head? = some module := by
  have hhead : (tokens name).head? = some (String.ofList (name.toList.takeWhile (· != '.'))) :=
    Text.head?_pieces (· == '.') name
  rw [hhead, Option.some.injEq, moduleName?, Option.ite_none_left_eq_some, Option.some.injEq]
  refine and_congr_left fun heq => ?_
  rw [← heq]
  simp

/-- A name that does not begin with a dot stands for a module. -/
theorem exists_moduleName? (hname : name ≠ "") (hdot : ¬ Text.beginsWith "." name = true) :
    ∃ module, moduleName? name = some module := by
  obtain ⟨c, chars, hchars⟩ := List.exists_cons_of_ne_nil (mt String.toList_eq_nil_iff.mp hname)
  have hc : c ≠ '.' := by
    rintro rfl
    exact hdot (by simp [Text.beginsWith, hchars])
  refine ⟨String.ofList (c :: chars.takeWhile (· != '.')), ?_⟩
  simp [moduleName?, hchars, hc]

/-! ## Kebab case -/

/-- Non-empty groups of small letters and digits of ASCII, with single hyphens between them. -/
def IsKebabWord (word : String) : Prop :=
  ∃ groups : List String, groups ≠ [] ∧ word = Text.joinWith "-" groups ∧
    ∀ group ∈ groups, group ≠ "" ∧ ∀ c ∈ group.toList, c.isLower = true ∨ c.isDigit = true

theorem isKebabChar_iff {c : Char} :
    isKebabChar c = true ↔ c.isLower = true ∨ c.isDigit = true := by
  rw [isKebabChar, Bool.or_eq_true]

theorem isKebabCase_eq_all_pieces (word : String) : isKebabCase word =
    (Text.pieces (· == '-') word).all fun group => group != "" && group.toList.all isKebabChar := by
  have hempty (group : List Char) : (String.ofList group != "") = !group.isEmpty := by
    cases group <;> simp
  rw [isKebabCase, Text.pieces, List.all_map]
  simp only [Function.comp_def, hempty, String.toList_ofList]

theorem isKebabCase_iff : isKebabCase word = true ↔ IsKebabWord word := by
  have hall (groups : List String) :
      (groups.all fun group => group != "" && group.toList.all isKebabChar) = true ↔
        ∀ group ∈ groups, group ≠ "" ∧ ∀ c ∈ group.toList, c.isLower = true ∨ c.isDigit = true := by
    simp [isKebabChar_iff]
  rw [isKebabCase_eq_all_pieces, hall]
  constructor
  · intro hgroups
    refine ⟨Text.pieces (· == '-') word, ?_, (Text.joinWith_pieces '-' word).symm, hgroups⟩
    simp [Text.pieces, List.splitOnP_ne_nil]
  · rintro ⟨groups, hne, rfl, hgroups⟩
    have huncut : ∀ group ∈ groups, '-' ∉ group.toList := by
      intro group hgroup hhyphen
      have hchar := (hgroups group hgroup).2 '-' hhyphen
      revert hchar
      decide
    have hpieces : Text.pieces (· == '-') (Text.joinWith "-" groups) = groups :=
      Text.pieces_joinWith (c := '-') hne huncut
    rwa [hpieces]

theorem IsKebabWord.not_beginsWith (h : IsKebabWord word) : ¬ Text.beginsWith "_" word = true := by
  obtain ⟨groups, -, rfl, hgroups⟩ := h
  intro hbegins
  obtain ⟨rest, hrest⟩ := Text.beginsWith_iff.mp hbegins
  have hmem : '_' ∈ (Text.joinWith "-" groups).toList := by simp [hrest]
  obtain hhyphen | ⟨group, hgroup, hc⟩ := Text.mem_toList_joinWith hmem
  · revert hhyphen
    decide
  · have hchar := (hgroups group hgroup).2 '_' hc
    revert hchar
    decide

end LayerLint.FileName
