import LayerLint.Proofs.Discovery.Chain
import LayerLint.Proofs.Discovery.Marker
import LayerLint.Proofs.FileTree.Insert

/-! # Discovery beside a new file

A file that is no marker and says nothing about aliases changes nothing about what is discovered,
even if compiler settings extend it.
-/

namespace LayerLint

open CompilerSettings (document? directoryOf read? extend Extends Meets)

variable {tree later : FileTree} {new path start marker : Path} {visited met : List Path}
variable {value : Json} {above names : List String} {name : String}

namespace FileTree.Adds

variable (h : tree.Adds later new)

include h

theorem document?_new : document? tree new = none := by
  rw [document?, text?, h.absent]
  rfl

theorem document?_eq (habsolute : path.isAbsolute = true) (hnormal : path.normalize = path)
    (hne : path ≠ new) : document? later path = document? tree path := by
  rw [document?, document?, text?, text?, h.same path habsolute hnormal hne]

end FileTree.Adds

namespace CompilerSettings

theorem extend_blank (hoptions : value.get? "compilerOptions" = none) (directory : Path) :
    extend (ofJson directory value) (none, .empty) = (none, .empty) := by
  simp [extend, ofJson, hoptions, Dict.ofList, Dict.empty]

/-- A file that extends nothing and gives no aliases may be added at the end of a chain, where it
changes nothing. -/
theorem Meets.exists_of_adds (h : tree.Adds later new)
    (hblank : ∀ value, document? later new = some value →
      value.get? "extends" = none ∧ value.get? "compilerOptions" = none)
    (hmeets : Meets tree visited path met) (habsolute : path.isAbsolute = true)
    (hnormal : path.normalize = path) (hnew : new ∉ visited) :
    ∃ met', Meets later visited path met' ∧
      (met'.filterMap (read? later)).foldr extend (none, .empty) =
        (met.filterMap (read? tree)).foldr extend (none, .empty) := by
  have hne {path : Path} (hreadable : (document? tree path).isSome = true) : path ≠ new := by
    rintro rfl
    rw [h.document?_new] at hreadable
    cases hreadable
  induction hmeets with
  | @stop visited path hstop =>
      rcases hstop with hvisited | hnone
      · exact ⟨[], .stop (.inl hvisited), rfl⟩
      by_cases heq : path = new
      · subst heq
        cases hdocument : document? later path with
        | none => exact ⟨[], .stop (.inr hdocument), rfl⟩
        | some value =>
            obtain ⟨hextends, hoptions⟩ := hblank value hdocument
            refine ⟨[path], .last hnew (Option.isSome_of_mem hdocument) ?_, ?_⟩
            · rintro next ⟨_, reference, hvalue, hreference, -⟩
              obtain rfl := Option.some.inj (hdocument.symm.trans hvalue)
              rw [hextends] at hreference
              cases hreference
            · rw [List.filterMap_cons, read?_eq_map, hdocument]
              exact extend_blank hoptions _
      · exact ⟨[], .stop (.inr (by rw [h.document?_eq habsolute hnormal heq, hnone])), rfl⟩
  | @last visited path hfresh hreadable hlast =>
      have hsame := h.document?_eq habsolute hnormal (hne hreadable)
      refine ⟨[path], .last hfresh (hsame ▸ hreadable) ?_, ?_⟩
      · rintro next ⟨value, reference, hvalue, hnext⟩
        exact hlast next ⟨value, reference, hsame ▸ hvalue, hnext⟩
      · rw [List.filterMap_cons, List.filterMap_cons, read?_eq_map, read?_eq_map, hsame]
        rfl
  | @step visited path next met hfresh hreadable hnext hrest ih =>
      have hsame := h.document?_eq habsolute hnormal (hne hreadable)
      have hdirectory := CompilerSettings.isAbsolute_directoryOf habsolute hnormal hreadable
      obtain ⟨met', hmeets', heq⟩ := ih (hnext.isAbsolute hdirectory) hnext.normalize_eq (by
        rw [List.mem_cons, not_or]
        exact ⟨Ne.symm (hne hreadable), hnew⟩)
      obtain ⟨value, hvalue⟩ := Option.isSome_iff_exists.mp hreadable
      have hread : read? later path = read? tree path := by
        rw [read?_eq_map, read?_eq_map, hsame]
      have hextends : Extends later path next := by
        obtain ⟨value, reference, hvalue, hleads⟩ := hnext
        exact ⟨value, reference, hsame ▸ hvalue, hleads⟩
      refine ⟨path :: met', .step hfresh (hsame ▸ hreadable) hextends hmeets', ?_⟩
      rw [List.filterMap_cons, List.filterMap_cons, hread]
      cases read? tree path with
      | none => exact heq
      | some settings => exact congrArg (extend settings) heq

end CompilerSettings

namespace Discovery

theorem isName_of_mem_markerNames (h : name ∈ markerNames) : Path.IsName name := by
  simp only [markerNames, List.mem_cons, List.not_mem_nil, or_false] at h
  rcases h with rfl | rfl <;> exact ⟨by decide, by decide, by decide, by decide⟩

theorem markerIn?_eq (h : tree.Adds later new)
    (hother : ∀ name, new.fileName? = some name → name ∉ markerNames)
    (habove : ∀ name ∈ above, Path.IsName name) :
    markerIn? later (.ofNames above) = markerIn? tree (.ofNames above) := by
  have hfile {file : String} (hmem : file ∈ markerNames) :
      later.hasFile ((Path.ofNames above).join ⟨file⟩) =
        tree.hasFile ((Path.ofNames above).join ⟨file⟩) := by
    have hall : ∀ name ∈ above ++ [file], Path.IsName name := by
      rw [List.forall_mem_append, List.forall_mem_singleton]
      exact ⟨habove, isName_of_mem_markerNames hmem⟩
    rw [Path.join_ofNames habove (isName_of_mem_markerNames hmem)]
    refine h.hasFile_eq (Path.isAbsolute_ofNames _) (Path.normalize_ofNames hall) ?_
    rintro rfl
    exact hother file (Path.fileName?_ofNames_concat hall) hmem
  rw [markerIn?, markerIn?, hfile (by decide), hfile (by decide)]

theorem IsMarker.congr {first second : FileTree}
    (hsame : ∀ above, above <+: start.normalize.namesOf →
      markerIn? first (.ofNames above) = markerIn? second (.ofNames above))
    (h : IsMarker first start marker) : IsMarker second start marker := by
  obtain ⟨above, habove, hfind, hdeeper⟩ := h
  refine ⟨above, habove, hsame above habove ▸ hfind, fun deeper hprefix hlt => ?_⟩
  rw [← hsame deeper hprefix]
  exact hdeeper deeper hprefix hlt

theorem marker?_eq (h : tree.Adds later new)
    (hother : ∀ name, new.fileName? = some name → name ∉ markerNames)
    (hstart : start.isAbsolute = true) : marker? later start = marker? tree start := by
  obtain ⟨names, hnames, hnormal⟩ := Path.exists_normalize_eq_ofNames hstart
  have hsame : ∀ above, above <+: start.normalize.namesOf →
      markerIn? later (.ofNames above) = markerIn? tree (.ofNames above) := by
    intro above habove
    rw [hnormal, Path.namesOf_ofNames hnames] at habove
    exact markerIn?_eq h hother fun name hname => hnames name (habove.subset hname)
  apply Option.ext
  intro marker
  rw [marker?_eq_some_iff hstart, marker?_eq_some_iff hstart]
  exact ⟨.congr hsame, .congr fun above habove => (hsame above habove).symm⟩

/-- A new file that is no marker and says nothing about aliases changes nothing about what is
discovered. -/
theorem ofDirectory_eq (h : tree.Adds later new)
    (hother : ∀ name, new.fileName? = some name → name ∉ markerNames)
    (hblank : ∀ value, document? later new = some value →
      value.get? "extends" = none ∧ value.get? "compilerOptions" = none)
    (hstart : start.isAbsolute = true) : ofDirectory later start = ofDirectory tree start := by
  have hmarker := marker?_eq h hother hstart
  unfold ofDirectory
  rw [hmarker]
  cases hfound : marker? tree start with
  | none => rfl
  | some marker =>
      obtain ⟨habsolute, hnormal⟩ :=
        ((marker?_eq_some_iff hstart).mp hfound).isAbsolute_and_normal hstart
      have hmeets (tree : FileTree) : ∃ met, Meets tree [] marker met ∧
          CompilerSettings.chain tree tree.size [] marker = met.filterMap (read? tree) := by
        have hvisited : CompilerSettings.IsVisited tree [] := CompilerSettings.isVisited_nil
        have hmet := CompilerSettings.exists_meets_chain hvisited (Nat.zero_add _)
          (hnormal.symm ▸ habsolute)
        rwa [hnormal] at hmet
      obtain ⟨met, hmet, hchain⟩ := hmeets tree
      obtain ⟨met', hmet', hchain'⟩ := hmeets later
      obtain ⟨others, hothers, heq⟩ :=
        CompilerSettings.Meets.exists_of_adds h hblank hmet habsolute hnormal List.not_mem_nil
      obtain rfl := hothers.eq hmet'
      simp only [hchain, hchain', CompilerSettings.aliases, heq]

end Discovery

end LayerLint
