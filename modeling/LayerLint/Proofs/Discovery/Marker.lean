import LayerLint.Discovery
import LayerLint.Proofs.Path.Absolute

/-! # Where the search for compiler settings ends

The directories at and above an absolute path are those that beginnings of its names lead to. They
are tried from the longest to the shortest, so that the first file found is in the deepest of them.
-/

namespace LayerLint.Discovery

variable {tree : FileTree} {start marker : Path}

/-- The file with compiler settings in a directory. -/
def markerIn? (tree : FileTree) (directory : Path) : Option Path :=
  if tree.hasFile (directory.join ⟨"tsconfig.json"⟩) then
    some (directory.join ⟨"tsconfig.json"⟩)
  else if tree.hasFile (directory.join ⟨"jsconfig.json"⟩) then
    some (directory.join ⟨"jsconfig.json"⟩)
  else none

/-- The file with compiler settings in the deepest directory at or above the start that has one. -/
def IsMarker (tree : FileTree) (start marker : Path) : Prop :=
  ∃ above, above <+: start.normalize.namesOf ∧ markerIn? tree (.ofNames above) = some marker ∧
    ∀ deeper, deeper <+: start.normalize.namesOf → above.length < deeper.length →
      markerIn? tree (.ofNames deeper) = none

theorem find?_markerNames (tree : FileTree) (directory : Path) :
    (markerNames.map fun name => directory.join ⟨name⟩).find? tree.hasFile =
      markerIn? tree directory := by
  simp only [markerNames, List.map_cons, List.map_nil, List.find?_cons, List.find?_nil, markerIn?]
  cases tree.hasFile (directory.join ⟨"tsconfig.json"⟩) <;>
    cases tree.hasFile (directory.join ⟨"jsconfig.json"⟩) <;> rfl

/-- The names, from the last to the first, are shortened one by one until a path is found. -/
theorem findSome?_shortenings {α : Type} {find : Path → Option α} {found : α}
    (names : List String) :
    (shortenings (names.map .name ++ [.root])).findSome? find = some found ↔
      ∃ above, above <:+ names ∧ find (.ofNames above.reverse) = some found ∧
        ∀ deeper, deeper <:+ names → above.length < deeper.length →
          find (.ofNames deeper.reverse) = none := by
  induction names with
  | nil =>
      have hroot : (shortenings (([] : List String).map .name ++ [.root])).findSome? find =
          find (.ofNames []) := by
        change [Path.ofNames []].findSome? find = _
        rw [List.findSome?_singleton]
      rw [hroot]
      constructor
      · intro hfind
        refine ⟨[], List.suffix_rfl, hfind, ?_⟩
        intro deeper hdeeper hlt
        exact (Nat.not_lt.mpr hdeeper.length_le hlt).elim
      · rintro ⟨above, habove, hfind, -⟩
        rwa [List.suffix_nil.mp habove] at hfind
  | cons last names ih =>
      have hfirst : shortenings ((last :: names).map .name ++ [.root]) =
          .ofNames (last :: names).reverse :: shortenings (names.map .name ++ [.root]) := by
        simp [shortenings, Path.ofNames]
      rw [hfirst, List.findSome?_cons]
      cases hlast : find (.ofNames (last :: names).reverse) with
      | some other =>
          constructor
          · intro heq
            refine ⟨last :: names, List.suffix_rfl, hlast.trans heq, ?_⟩
            intro deeper hdeeper hlt
            exact (Nat.not_lt.mpr hdeeper.length_le hlt).elim
          · rintro ⟨above, habove, hfind, hdeeper⟩
            rcases List.suffix_cons_iff.mp habove with rfl | habove
            · rw [← hfind, hlast]
            · have hnone := hdeeper _ List.suffix_rfl (Nat.lt_succ_of_le habove.length_le)
              rw [hnone] at hlast
              cases hlast
      | none =>
          rw [ih]
          constructor
          · rintro ⟨above, habove, hfind, hdeeper⟩
            refine ⟨above, habove.trans (List.suffix_cons ..), hfind, ?_⟩
            intro deeper hsuffix hlt
            rcases List.suffix_cons_iff.mp hsuffix with rfl | hsuffix
            · exact hlast
            · exact hdeeper deeper hsuffix hlt
          · rintro ⟨above, habove, hfind, hdeeper⟩
            rcases List.suffix_cons_iff.mp habove with rfl | habove
            · rw [hfind] at hlast
              cases hlast
            · refine ⟨above, habove, hfind, ?_⟩
              intro deeper hsuffix
              exact hdeeper deeper (hsuffix.trans (List.suffix_cons ..))

/-- The search ends at the file in the deepest directory that has one. -/
theorem marker?_eq_some_iff (h : start.isAbsolute = true) :
    marker? tree start = some marker ↔ IsMarker tree start marker := by
  obtain ⟨names, hnames, hstart⟩ := Path.exists_normalize_eq_ofNames h
  have hreverse : (Path.ofNames names).components.reverse =
      names.reverse.map .name ++ [.root] := by
    rw [Path.components_ofNames hnames, List.reverse_cons, List.map_reverse]
  simp only [marker?, ancestors, find?_markerNames, IsMarker, hstart, hreverse,
    findSome?_shortenings, Path.namesOf_ofNames hnames]
  constructor
  · rintro ⟨above, habove, hfind, hdeeper⟩
    refine ⟨above.reverse, by simpa using List.reverse_prefix.mpr habove, hfind, ?_⟩
    intro deeper hprefix hlt
    have hnone := hdeeper deeper.reverse (by simpa using List.reverse_suffix.mpr hprefix)
      (by simpa using hlt)
    rwa [List.reverse_reverse] at hnone
  · rintro ⟨above, habove, hfind, hdeeper⟩
    refine ⟨above.reverse, List.reverse_suffix.mpr habove, by simpa using hfind, ?_⟩
    intro deeper hsuffix hlt
    exact hdeeper deeper.reverse (by simpa using List.reverse_prefix.mpr hsuffix)
      (by simpa using hlt)

/-- The file found is written in normal form. -/
theorem IsMarker.isAbsolute_and_normal (h : IsMarker tree start marker)
    (hstart : start.isAbsolute = true) :
    marker.isAbsolute = true ∧ marker.normalize = marker := by
  obtain ⟨names, hnames, hnormal⟩ := Path.exists_normalize_eq_ofNames hstart
  obtain ⟨above, habove, hfind, -⟩ := h
  rw [hnormal, Path.namesOf_ofNames hnames] at habove
  have habove : ∀ name ∈ above, Path.IsName name := fun name hname =>
    hnames name (habove.subset hname)
  have hjoin (file : String) (hfile : Path.IsName file) :
      ((Path.ofNames above).join ⟨file⟩).isAbsolute = true ∧
        ((Path.ofNames above).join ⟨file⟩).normalize = (Path.ofNames above).join ⟨file⟩ := by
    have hall : ∀ name ∈ above ++ [file], Path.IsName name := by
      rw [List.forall_mem_append, List.forall_mem_singleton]
      exact ⟨habove, hfile⟩
    rw [Path.join_ofNames habove hfile]
    exact ⟨Path.isAbsolute_ofNames _, Path.normalize_ofNames hall⟩
  unfold markerIn? at hfind
  split at hfind
  · cases hfind
    exact hjoin "tsconfig.json" ⟨by decide, by decide, by decide, by decide⟩
  · split at hfind
    · cases hfind
      exact hjoin "jsconfig.json" ⟨by decide, by decide, by decide, by decide⟩
    · cases hfind

end LayerLint.Discovery
