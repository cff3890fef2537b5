import LayerLint.Path.Normal
import LayerLint.Proofs.Text.Pieces

/-! # Components in normal form

Writing components as a text and reading it again gives the components back, as long as each of them
is a name or a pair of dots, possibly behind the root. Normal components are of this kind and change
no more when they are brought into normal form again.
-/

namespace LayerLint

namespace Path

/-- The text can be the name of an entry. -/
def IsName (text : String) : Prop :=
  text ≠ "" ∧ text ≠ "." ∧ text ≠ ".." ∧ '/' ∉ text.toList

namespace Component

/-- The component is a name or a pair of dots. -/
def IsStep (component : Component) : Prop :=
  component = up ∨ ∃ text, component = name text ∧ IsName text

variable {component : Component}

theorem IsStep.ofPiece?_text (h : component.IsStep) : ofPiece? component.text = some component := by
  rcases h with rfl | ⟨text, rfl, hempty, hhere, hup, -⟩
  · decide
  · simp [ofPiece?, Component.text, hempty, hhere, hup]

theorem IsStep.text_ne (h : component.IsStep) : component.text ≠ "" ∧ component.text ≠ "." := by
  rcases h with rfl | ⟨text, rfl, hempty, hhere, -⟩
  · decide
  · exact ⟨hempty, hhere⟩

theorem IsStep.slash_not_mem (h : component.IsStep) : '/' ∉ component.text.toList := by
  rcases h with rfl | ⟨text, rfl, -, -, -, hslash⟩
  · decide
  · exact hslash

theorem isStep_of_ofPiece? {piece : String} (hslash : '/' ∉ piece.toList)
    (h : ofPiece? piece = some component) : component.IsStep := by
  unfold ofPiece? at h
  split at h
  next => cases h
  next hne =>
    rw [not_or] at hne
    split at h
    next =>
      cases h
      exact .inl rfl
    next hup =>
      cases h
      exact .inr ⟨piece, rfl, hne.1, hne.2, hup, hslash⟩

end Component

/-! ## Writing and reading -/

variable {path : Path} {steps : List Component}

theorem filterMap_ofPiece?_text (h : ∀ step ∈ steps, step.IsStep) :
    (steps.map Component.text).filterMap Component.ofPiece? = steps := by
  rw [List.filterMap_map]
  induction steps with
  | nil => rfl
  | cons step rest ih =>
      obtain ⟨hstep, hrest⟩ := List.forall_mem_cons.mp h
      rw [List.filterMap_cons_some (by simpa using hstep.ofPiece?_text), ih hrest]

theorem pieces_joinWith_text (h : ∀ step ∈ steps, step.IsStep) (hne : steps ≠ []) :
    Text.pieces (· == '/') (Text.joinWith "/" (steps.map Component.text)) =
      steps.map Component.text := by
  apply Text.pieces_joinWith (c := '/') (by simpa using hne)
  intro item hitem
  obtain ⟨step, hstep, rfl⟩ := List.mem_map.mp hitem
  exact (h step hstep).slash_not_mem

theorem components_of_absolute (text : String) : (Path.mk ("/" ++ text)).components =
    .root :: (Text.pieces (· == '/') text).filterMap Component.ofPiece? := by
  have habsolute : (Path.mk ("/" ++ text)).isAbsolute = true := by
    simp [isAbsolute, Text.beginsWith]
  have hpieces : Text.pieces (· == '/') ("/" ++ text) = "" :: Text.pieces (· == '/') text :=
    Text.pieces_append_of_cut (c := '/') (by simp) "" text
  rw [components, habsolute, if_pos rfl, hpieces]
  rfl

/-- The components behind the root are read as they are written. -/
theorem components_ofComponents_root (h : ∀ step ∈ steps, step.IsStep) :
    (ofComponents (.root :: steps)).components = .root :: steps := by
  rw [ofComponents, components_of_absolute]
  by_cases hne : steps = []
  · subst hne
    decide
  · rw [pieces_joinWith_text h hne, filterMap_ofPiece?_text h]

theorem not_isStep_root : ¬ Component.root.IsStep := by
  rintro (heq | ⟨_, heq, _⟩) <;> cases heq

theorem ofComponents_eq_joinWith (h : ∀ step ∈ steps, step.IsStep) :
    ofComponents steps = ⟨Text.joinWith "/" (steps.map Component.text)⟩ := by
  unfold ofComponents
  split
  next rest => exact (not_isStep_root (h .root List.mem_cons_self)).elim
  next => rfl

/-- The components of a relative path are read as they are written. -/
theorem components_ofComponents (h : ∀ step ∈ steps, step.IsStep) :
    (ofComponents steps).components = steps := by
  have hwritten := ofComponents_eq_joinWith h
  by_cases hne : steps = []
  · subst hne
    decide
  · have hpieces := pieces_joinWith_text h hne
    obtain ⟨step, rest, rfl⟩ := List.exists_cons_of_ne_nil hne
    obtain ⟨hempty, hhere⟩ := (h step List.mem_cons_self).text_ne
    have hrelative : (ofComponents (step :: rest)).isAbsolute = false := by
      -- a slash in front would cut off an empty piece
      rw [← Bool.not_eq_true, hwritten]
      intro habsolute
      obtain ⟨tail, htail⟩ := List.isPrefixOf_iff_prefix.mp habsolute
      have hslash : Text.joinWith "/" ((step :: rest).map Component.text) =
          "" ++ String.singleton '/' ++ String.ofList tail := by
        rw [← String.toList_inj, ← htail]
        simp
      rw [hslash, Text.pieces_append_of_cut (by simp)] at hpieces
      exact hempty (by simpa [Text.pieces] using (congrArg List.head? hpieces).symm)
    rw [components, hrelative, hwritten, hpieces, if_neg (by simp), if_neg (by simpa using hhere),
      filterMap_ofPiece?_text h]

theorem isStep_of_mem_pieces (path : Path) {component : Component}
    (h : component ∈ (Text.pieces (· == '/') path.text).filterMap Component.ofPiece?) :
    component.IsStep := by
  obtain ⟨piece, hpiece, hcomponent⟩ := List.mem_filterMap.mp h
  refine Component.isStep_of_ofPiece? ?_ hcomponent
  intro hslash
  simpa using Text.eq_false_of_mem_pieces hpiece hslash

/-- A component is a step, the root in front of an absolute path, or the dot in front of another. -/
theorem components_cases (path : Path) : ∃ steps : List Component,
    (∀ step ∈ steps, step.IsStep) ∧
      ((path.isAbsolute = true ∧ path.components = .root :: steps) ∨
        (path.isAbsolute = false ∧
          (path.components = .here :: steps ∨ path.components = steps))) := by
  refine ⟨_, fun _ => isStep_of_mem_pieces path, ?_⟩
  unfold components
  split
  next habsolute => exact .inl ⟨habsolute, rfl⟩
  next hrelative =>
    refine .inr ⟨by simpa using hrelative, ?_⟩
    dsimp only
    split
    · exact .inl rfl
    · exact .inr rfl

theorem isName_of_mem_components {text : String} (h : .name text ∈ path.components) :
    IsName text := by
  obtain ⟨steps, hsteps, heq⟩ := path.components_cases
  have hstep : Component.name text ∈ steps := by
    rcases heq with ⟨-, heq⟩ | ⟨-, heq | heq⟩ <;> simpa [heq] using h
  rcases hsteps _ hstep with hup | ⟨_, hname, hok⟩
  · cases hup
  · cases hname
    exact hok

/-! ## Normal forms -/

/-- A stack of normal components, the last one first: names above the root, or above pairs of dots
that have nothing to take back. -/
inductive IsStack : List Component → Prop where
  | root : IsStack [.root]
  | climbs (count : Nat) : IsStack (List.replicate count .up)
  | push {text : String} {stack : List Component} (hname : IsName text) (h : IsStack stack) :
      IsStack (.name text :: stack)

variable {stack : List Component}

theorem IsStack.fold {component : Component} (h : IsStack stack)
    (hstep : component.IsStep ∨ component = .here) : IsStack (fold stack component) := by
  rcases hstep with (rfl | ⟨text, rfl, hname⟩) | rfl
  · cases h with
    | root => exact .root
    | climbs count =>
        cases count with
        | zero => exact .climbs 1
        | succ count => exact .climbs (count + 2)
    | push _ h => exact h
  · exact .push hname h
  · exact h

theorem IsStack.foldl_fold (h : IsStack stack)
    (hsteps : ∀ step ∈ steps, step.IsStep ∨ step = .here) :
    IsStack (steps.foldl Path.fold stack) := by
  induction steps generalizing stack with
  | nil => exact h
  | cons step rest ih =>
      obtain ⟨hstep, hrest⟩ := List.forall_mem_cons.mp hsteps
      exact ih (h.fold hstep) hrest

theorem isStack_components (path : Path) : IsStack (path.components.foldl fold []) := by
  obtain ⟨steps, hsteps, heq⟩ := path.components_cases
  have hfolds : ∀ step ∈ steps, step.IsStep ∨ step = .here :=
    fun step hmem => .inl (hsteps step hmem)
  rcases heq with ⟨-, heq⟩ | ⟨-, heq | heq⟩ <;> rw [heq]
  · exact IsStack.root.foldl_fold hfolds
  · exact (IsStack.climbs 0).foldl_fold (List.forall_mem_cons.mpr ⟨.inr rfl, hfolds⟩)
  · exact (IsStack.climbs 0).foldl_fold hfolds

theorem foldl_fold_replicate (count done : Nat) :
    (List.replicate count Component.up).foldl fold (List.replicate done .up) =
      List.replicate (done + count) .up := by
  induction count generalizing done with
  | zero => rfl
  | succ count ih =>
      have hfold : fold (List.replicate done .up) .up = List.replicate (done + 1) .up := by
        cases done <;> rfl
      rw [List.replicate_succ, List.foldl_cons, hfold, ih, Nat.add_right_comm, Nat.add_assoc]

theorem IsStack.foldl_fold_reverse (h : IsStack stack) :
    stack.reverse.foldl Path.fold [] = stack := by
  induction h with
  | root => rfl
  | climbs count =>
      rw [List.reverse_replicate]
      simpa using foldl_fold_replicate count 0
  | push hname h ih =>
      rw [List.reverse_cons, List.foldl_append, ih]
      rfl

/-- A stack of normal components is the root below steps, or steps alone. -/
theorem IsStack.reverse_cases (h : IsStack stack) : ∃ steps : List Component,
    (∀ step ∈ steps, step.IsStep) ∧ (stack.reverse = .root :: steps ∨ stack.reverse = steps) := by
  induction h with
  | root => exact ⟨[], by simp, .inl rfl⟩
  | climbs count =>
      refine ⟨List.replicate count .up, ?_, .inr (List.reverse_replicate ..)⟩
      intro step hstep
      exact .inl (List.eq_of_mem_replicate hstep)
  | @push text stack hname h ih =>
      obtain ⟨steps, hsteps, heq⟩ := ih
      refine ⟨steps ++ [.name text], ?_, ?_⟩
      · rw [List.forall_mem_append, List.forall_mem_singleton]
        exact ⟨hsteps, .inr ⟨text, rfl, hname⟩⟩
      · rcases heq with heq | heq
        · exact .inl (by rw [List.reverse_cons, heq, List.cons_append])
        · exact .inr (by rw [List.reverse_cons, heq])

/-- Normal components are read as they are written. -/
theorem IsStack.components_ofComponents (h : IsStack stack) :
    (ofComponents stack.reverse).components = stack.reverse := by
  obtain ⟨steps, hsteps, heq⟩ := h.reverse_cases
  rcases heq with heq | heq <;> rw [heq]
  · exact components_ofComponents_root hsteps
  · exact Path.components_ofComponents hsteps

theorem components_normalize (path : Path) : path.normalize.components = path.normalComponents :=
  (isStack_components path).components_ofComponents

theorem normalComponents_normalize (path : Path) :
    path.normalize.normalComponents = path.normalComponents := by
  rw [normalComponents, components_normalize, normalComponents,
    (isStack_components path).foldl_fold_reverse]

theorem normalize_normalize (path : Path) : path.normalize.normalize = path.normalize := by
  rw [normalize, normalComponents_normalize, normalize]

end Path

end LayerLint
