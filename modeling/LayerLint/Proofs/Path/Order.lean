import LayerLint.Path.Normal
import Mathlib.Data.List.Sort

/-! # The listing order of paths

Components, lists of components and so paths are in a total order. Paths in normal form are told
apart by their components, so that a listing of them does not depend on the order in which they
were met.
-/

namespace LayerLint.Path

namespace Component

theorem compare_eq_compareLex :
    Component.compare = compareLex (compareOn rank) (compareOn text) := by
  funext first second
  cases first <;> cases second <;>
    simp [Component.compare, compareLex, compareOn, rank, text, Nat.compare_eq_ite_lt]

theorem eq_of_rank_eq {first second : Component} (hrank : first.rank = second.rank)
    (htext : first.text = second.text) : first = second := by
  cases first <;> cases second <;> simp_all [rank, text]

instance : Std.TransCmp Component.compare := by
  rw [compare_eq_compareLex]
  infer_instance

instance : Std.LawfulEqCmp Component.compare where
  compare_self {component} := Std.ReflCmp.compare_self
  eq_of_compare {first second} h := by
    rw [compare_eq_compareLex, compareLex, Ordering.then_eq_eq] at h
    exact eq_of_rank_eq (Std.LawfulEqCmp.eq_of_compare h.1) (Std.LawfulEqCmp.eq_of_compare h.2)

end Component

theorem compareComponents_eq_compareLex :
    compareComponents = List.compareLex Component.compare := by
  funext first second
  induction first generalizing second with
  | nil => cases second <;> rfl
  | cons a first ih =>
      cases second with
      | nil => rfl
      | cons b second =>
          rw [compareComponents, List.compareLex_cons_cons, ih]
          cases Component.compare a b <;> rfl

instance : Std.TransCmp compareComponents := by
  rw [compareComponents_eq_compareLex]
  infer_instance

instance : Std.LawfulEqCmp compareComponents := by
  rw [compareComponents_eq_compareLex]
  infer_instance

/-- The order in which paths are listed. -/
def NotBehind (first second : Path) : Prop :=
  (first.compare second).isLE = true

variable {paths others : List Path}

theorem components_eq_of_notBehind {first second : Path} (h : first.NotBehind second)
    (h' : second.NotBehind first) : first.components = second.components := by
  have heq : compareComponents first.components second.components = .eq :=
    Std.OrientedCmp.isLE_antisymm h h'
  exact Std.LawfulEqCmp.eq_of_compare heq

/-- The normal form is read off the components. -/
theorem eq_of_components_eq {first second : Path} (hfirst : first.normalize = first)
    (hsecond : second.normalize = second) (h : first.components = second.components) :
    first = second := by
  rw [← hfirst, ← hsecond, normalize, normalize, normalComponents, normalComponents, h]

theorem sort_eq_mergeSort (paths : List Path) :
    sort paths = paths.mergeSort fun first second => (first.compare second).isLE := by
  rw [sort, List.map_mergeSort (f := Prod.snd)
    (s := fun first second : Path => (first.compare second).isLE)]
  · simp [Function.comp_def]
  · intro first hfirst second hsecond
    obtain ⟨path, -, rfl⟩ := List.mem_map.mp hfirst
    obtain ⟨path', -, rfl⟩ := List.mem_map.mp hsecond
    rfl

theorem perm_sort (paths : List Path) : (sort paths).Perm paths := by
  rw [sort_eq_mergeSort]
  exact List.mergeSort_perm ..

theorem pairwise_sort (paths : List Path) : (sort paths).Pairwise NotBehind := by
  rw [sort_eq_mergeSort]
  apply List.pairwise_mergeSort
  · intro first second third hfirst hsecond
    have hcompare : (compareComponents first.components third.components).isLE = true :=
      Std.TransCmp.isLE_trans hfirst hsecond
    exact hcompare
  · intro first second
    have hswap : compareComponents first.components second.components =
        (compareComponents second.components first.components).swap := Std.OrientedCmp.eq_swap
    rw [Path.compare, Path.compare, hswap]
    cases compareComponents second.components first.components <;> rfl

/-- Paths in normal form have one listing, in whatever order they are met. -/
theorem eq_of_perm_of_pairwise (hnormal : ∀ path ∈ paths, path.normalize = path)
    (hpaths : paths.Pairwise NotBehind) (hothers : others.Pairwise NotBehind)
    (hperm : paths.Perm others) : paths = others := by
  refine hperm.eq_of_pairwise ?_ hpaths hothers
  intro first second hfirst hsecond hle hge
  exact eq_of_components_eq (hnormal first hfirst) (hnormal second (hperm.mem_iff.mpr hsecond))
    (components_eq_of_notBehind hle hge)

theorem sort_eq_of_perm (hnormal : ∀ path ∈ paths, path.normalize = path)
    (hperm : paths.Perm others) : sort paths = sort others :=
  eq_of_perm_of_pairwise (fun path hmem => hnormal path ((perm_sort paths).mem_iff.mp hmem))
    (pairwise_sort paths) (pairwise_sort others)
    ((perm_sort paths).trans (hperm.trans (perm_sort others).symm))

end LayerLint.Path
