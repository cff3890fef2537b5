import LayerLint.Proofs.Pattern.Written
import LayerLint.Proofs.Source.Callee
import LayerLint.Proofs.Source.WidenedClause
import LayerLint.Proofs.Text.Pieces

/-! # The names of a clause

A name that is collected is bound by an import clause of a router module, and it is written in what
that clause binds: nothing that is cut off, replaced or trimmed on the way to it makes a new name.
-/

namespace LayerLint.Source.RouterBindings

open Pattern
open Text (Cursor Span)

variable {source masked clause : List Char} {routers : GlobSet} {name : String}

/-! ## Collected names -/

/-- The names in a clause that stand for themselves, in braces and outside. -/
def hookNames (clause : List Char) : List String :=
  blockNames clause ++ plainNames clause

/-- The names in a clause that stand for a whole module. -/
def spaceNames (clause : List Char) : List String :=
  (namespaceBinding.findAll clause).map (·.text "name")

/-- Some import clause of a router module has the name among those that are read from it. -/
def IsBound (source masked : List Char) (routers : GlobSet) (names : List Char → List String)
    (name : String) : Prop :=
  ∃ found ∈ importClause.findAll masked, routers.isMatch (specifierOf source found) = true ∧
    name ∈ names (found.text "bindings").toList

theorem mem_hooks_addHook {bindings : RouterBindings} {added : String}
    (h : name ∈ (bindings.addHook added).hooks) : name ∈ bindings.hooks ∨ name = added := by
  rw [addHook] at h
  split at h
  next => exact (List.mem_append.mp h).imp_right List.mem_singleton.mp
  next => exact .inl h

theorem namespaces_addHook (bindings : RouterBindings) (added : String) :
    (bindings.addHook added).namespaces = bindings.namespaces := by
  rw [addHook]
  split
  · rfl
  · rfl

/-- A clause adds the names that are read from it, and no others. -/
theorem addClause_adds (bindings : RouterBindings) (clause : List Char) :
    (∀ name ∈ (bindings.addClause clause).hooks,
        name ∈ bindings.hooks ∨ name ∈ hookNames clause) ∧
      (bindings.addClause clause).namespaces = bindings.namespaces ++ spaceNames clause := by
  let AddsTo (added : RouterBindings) : Prop :=
    (∀ name ∈ added.hooks, name ∈ bindings.hooks ∨ name ∈ hookNames clause) ∧
      added.namespaces = bindings.namespaces ++ spaceNames clause
  refine List.foldlRecOn (motive := AddsTo) _ _ ⟨fun _ => .inl, rfl⟩ ?_
  rintro added ⟨hhooks, hspaces⟩ new hnew
  refine ⟨fun name hname => ?_, (namespaces_addHook added new).trans hspaces⟩
  rcases mem_hooks_addHook hname with hname | rfl
  · exact hhooks name hname
  · exact .inr hnew

/-- Every collected name is bound by a clause of a router module. -/
theorem isBound_of_collect (source masked : List Char) (routers : GlobSet) :
    (∀ name ∈ (collect source masked routers).hooks,
        IsBound source masked routers hookNames name) ∧
      ∀ name ∈ (collect source masked routers).namespaces,
        IsBound source masked routers spaceNames name := by
  let AllBound (bindings : RouterBindings) : Prop :=
    (∀ name ∈ bindings.hooks, IsBound source masked routers hookNames name) ∧
      ∀ name ∈ bindings.namespaces, IsBound source masked routers spaceNames name
  refine List.foldlRecOn (motive := AllBound) _ _ ⟨nofun, nofun⟩ ?_
  rintro bindings ⟨hhooks, hspaces⟩ found hfound
  split
  next hrouter =>
    obtain ⟨hadded, hbound⟩ := addClause_adds bindings (found.text "bindings").toList
    refine ⟨fun name hname => ?_, fun name hname => ?_⟩
    · rcases hadded name hname with hname | hname
      · exact hhooks name hname
      · exact ⟨found, hfound, hrouter, hname⟩
    · rw [hbound] at hname
      rcases List.mem_append.mp hname with hname | hname
      · exact hspaces name hname
      · exact ⟨found, hfound, hrouter, hname⟩
  next => exact ⟨hhooks, hspaces⟩

/-! ## Written names -/

theorem isInfix_of_mem_items {text item : List Char} (h : item ∈ items text) : item <:+: text := by
  obtain ⟨piece, hpiece, rfl⟩ := List.mem_map.mp h
  exact (Text.trimChars_isInfix piece).trans (Text.isInfix_of_mem_splitOnP hpiece)

theorem isInfix_of_boundName? {entry : List Char} (h : boundName? entry = some name) :
    name.toList <:+: entry := by
  obtain ⟨found, hfound, hname⟩ := Option.bind_eq_some_iff.mp h
  obtain ⟨span, hspan, rfl⟩ := Option.map_eq_some_iff.mp hname
  rw [whole?_eq_matchAt?] at hfound
  obtain ⟨-, haccepts⟩ := accepts_of_matchAt? hfound
  have hstart : Cursor.start entry ∈ Cursor.places entry :=
    Cursor.mem_places_iff.mpr ⟨[], .refl _⟩
  rw [Span.text, String.toList_ofList]
  rcases Option.or_eq_some_iff.mp hspan with hspan | ⟨-, hspan⟩
  · exact chars_isInfix hstart haccepts hspan
  · exact chars_isInfix hstart haccepts hspan

theorem isInfix_of_mem_hookNames (h : name ∈ hookNames clause) : name.toList <:+: clause := by
  rcases List.mem_append.mp h with h | h
  · rw [blockNames] at h
    split at h
    next => cases h
    next block hblock =>
      obtain ⟨hstart, haccepts⟩ := accepts_of_mem_findAll (List.mem_of_head? hblock)
      obtain ⟨item, hitem, hname⟩ := List.mem_filterMap.mp h
      exact (isInfix_of_boundName? hname).trans
        ((isInfix_of_mem_items hitem).trans (text_isInfix hstart haccepts "entries"))
  · obtain ⟨item, hitem, hname⟩ := List.mem_filterMap.mp h
    split at hname
    next hdescribes =>
      obtain rfl := Option.some.inj hname
      rw [String.toList_ofList]
      have hspace : ' ' ∉ item := by
        intro hmem
        have hblank := isBlank_eq_false_of_describes (Bool.and_eq_true_iff.mp hdescribes).2 ' ' hmem
        cases hblank
      exact isInfix_of_isInfix_blankOut hspace
        (isInfix_of_isInfix_blankOut hspace (isInfix_of_mem_items hitem))
    next => cases hname

theorem exists_of_accepts_namespaceBinding {start stop : Cursor} {captures : Captures}
    (h : namespaceBinding.Accepts start captures stop) :
    ∃ span, captures.lookup "name" = some span ∧ ∃ name, name ≠ [] ∧
      (∀ c ∈ name, isNameChar c = true) ∧ span.start.Reads name span.stop := by
  have hsplit : (all ([word "*", blanks, word "as", someBlanks] ++
      [named "name" identifier])).Accepts start captures stop := h
  obtain ⟨middle, before, after, hbefore, hafter, rfl⟩ := hsplit.of_all_append
  have hlead : (all [word "*", blanks, word "as", someBlanks]).StaysIn fun _ => true :=
    ⟨staysIn_word rfl, fun _ _ => rfl, staysIn_word rfl, ⟨fun _ _ => rfl, fun _ _ => rfl⟩, trivial⟩
  obtain ⟨rfl, -⟩ := hbefore.reads_of_staysIn hlead
  cases hafter.of_all_singleton with
  | named hname => exact ⟨_, rfl, (HookCall.exists_of_accepts_identifier hname).2⟩

/-- A name of a whole module is an identifier. -/
theorem isIdentifier_of_mem_spaceNames (h : name ∈ spaceNames clause) :
    name.toList <:+: clause ∧ name.toList ≠ [] ∧ ∀ c ∈ name.toList, isNameChar c = true := by
  obtain ⟨found, hfound, rfl⟩ := List.mem_map.mp h
  obtain ⟨hstart, haccepts⟩ := accepts_of_mem_findAll hfound
  obtain ⟨span, hspan, name, hne, hplain, hreads⟩ := exists_of_accepts_namespaceBinding haccepts
  refine ⟨text_isInfix hstart haccepts "name", ?_⟩
  rw [Match.toList_text hspan hreads]
  exact ⟨hne, hplain⟩

end LayerLint.Source.RouterBindings
