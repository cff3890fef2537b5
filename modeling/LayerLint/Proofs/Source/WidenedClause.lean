import LayerLint.Proofs.Pattern.WideSearch
import LayerLint.Proofs.Source.WidenedDeclaration
import LayerLint.Proofs.Text.WidenedItems
import LayerLint.Source.RouterHook

/-! # The names that a widened clause binds

An import clause binds the same names when it is widened by blanks: names hold no blanks, and where
blanks are put in between the parts of an item it stays what it is.
-/

namespace LayerLint.Source.RouterBindings

open Pattern
open Text (Cursor Span Widening Widens)

variable {w : Widening}

theorem isNameChar_of_isBlank : ∀ c, Text.isBlank c = true → isNameChar c = false :=
  Text.forall_isBlank_not (by decide)

theorem isComma_of_isBlank : ∀ c, Text.isBlank c = true → (c == ',') = false :=
  Text.forall_isBlank_not (by decide)

/-! ## The forms -/

theorem solid_identifier : Solid identifier :=
  solid_of_one_long isNameStart_of_isBlank isNameChar_of_isBlank

theorem keeps_identifier : Keeps w identifier .free .silent :=
  (Keeps.one_of_solid isNameStart_of_isBlank).andThen (Keeps.long_of_solid isNameChar_of_isBlank) rfl

theorem remembers_identifier (name other : String) :
    (named other identifier).Remembers name Solid :=
  ⟨fun _ => solid_identifier, trivial, trivial⟩

theorem keeps_namespaceBinding : Keeps w namespaceBinding .exact .silent := by
  have hname : Keeps w (named "name" identifier) .exact .silent :=
    (Keeps.named "name" keeps_identifier).of_covers rfl rfl
  have hstar : Keeps w (word "*") .free .silent := Keeps.word (by decide) (by decide)
  have has : Keeps w (word "as") .free .silent := Keeps.word (by decide) (by decide)
  have hbound := has.andThen (Keeps.someBlanks.andThen hname.last rfl) rfl
  exact hstar.andThen (Keeps.blanks.andThen hbound rfl) rfl

theorem remembers_namespaceBinding : namespaceBinding.Remembers "name" Solid :=
  ⟨remembers_word "*", trivial, remembers_word "as", ⟨trivial, trivial⟩,
    remembers_identifier "name" "name", trivial⟩

theorem keeps_bindingBlock : Keeps w bindingBlock .exact .silent := by
  have hopen : Keeps w (one (· == '\x7b')) .free .silent := Keeps.one_of_solid isBrace_of_isBlank
  have hclose : Keeps w (one (· == '\x7d')) .exact .silent :=
    (Keeps.one_of_solid (Text.forall_isBlank_not (by decide))).of_covers rfl rfl
  have hentries : Keeps w (long (· != '\x7d')) .loose .exact :=
    Keeps.long_of_open (Text.forall_isBlank (by decide))
  exact hopen.andThen ((Keeps.named "entries" hentries).andThen hclose.last rfl) rfl

theorem keeps_bindingEntry : Keeps w (andThen bindingEntry finish) .exact .silent := by
  have hname (name : String) : Keeps w (named name identifier) .free .silent :=
    Keeps.named name keeps_identifier
  have has : Keeps w (word "as") .free .silent := Keeps.word (by decide) (by decide)
  have htype : Keeps w (word "type") .free .silent := Keeps.word (by decide) (by decide)
  have hblanks : Keeps w someBlanks .silent .free := Keeps.someBlanks.of_covers rfl rfl
  have hrenamed := has.andThen (Keeps.someBlanks.andThen (hname "alias").last rfl) rfl
  have halias := Keeps.someBlanks.andThen hrenamed rfl
  have hmaybeAlias := halias.maybe (.inr (.inr rfl)) rfl
  have hmaybeType := (htype.andThen hblanks rfl).maybe (.inl rfl) rfl
  have hentry := hmaybeType.andThen ((hname "name").andThen hmaybeAlias.last rfl) rfl
  have hwhole := hentry.andThen Keeps.finish rfl
  exact hwhole.of_covers rfl rfl

theorem remembers_bindingEntry (name : String) :
    (andThen bindingEntry finish).Remembers name Solid := by
  have hblanks : someBlanks.Remembers name Solid := ⟨trivial, trivial⟩
  exact ⟨⟨⟨⟨remembers_word "type", hblanks⟩, trivial⟩, remembers_identifier name "name",
    ⟨⟨hblanks, remembers_word "as", hblanks, remembers_identifier name "alias", trivial⟩, trivial⟩,
    trivial⟩, trivial⟩

/-! ## Items -/

theorem isBlank_eq_false_of_describes {item : List Char} (h : identifier.describes item = true) :
    ∀ c ∈ item, Text.isBlank c = false := by
  obtain ⟨found, hfound⟩ := Option.isSome_iff_exists.mp h
  rw [whole?_eq_matchAt?] at hfound
  obtain ⟨-, haccepts⟩ := accepts_of_matchAt? hfound
  generalize found.captures = captures at haccepts
  cases haccepts with
  | andThen hname hfinish =>
      obtain ⟨c, piece, hreads, hplain⟩ := solid_identifier hname
      cases hfinish with
      | finish hend =>
          have hitem := hreads.rest_eq
          rw [List.isEmpty_iff.mp hend, List.append_nil] at hitem
          rwa [← hitem] at hplain

/-- Items of both texts without the blanks around them: equal, or widened inside. -/
def ItemAlike (item item' : List Char) : Prop :=
  item = item' ∨ ∃ w : Widening, w.before ≠ [] ∧ item = w.narrow ∧ item' = w.wide

theorem forall₂_items {text text' : List Char} (h : Widens text text') :
    List.Forall₂ ItemAlike (items text) (items text') := by
  unfold items
  rw [List.forall₂_map_left_iff, List.forall₂_map_right_iff]
  exact (h.splitOnP isComma_of_isBlank).imp fun _ _ hitem => hitem.trimChars

theorem boundName?_eq {item item' : List Char} (h : ItemAlike item item') :
    boundName? item' = boundName? item := by
  rcases h with rfl | ⟨w, hne, rfl, rfl⟩
  · rfl
  · rw [boundName?, boundName?]
    rcases none_or_some_of_rel (keeps_bindingEntry.rel_whole? hne) with
      ⟨hnone, hnone'⟩ | ⟨found, found', hfound, hfound', halike⟩
    · rw [hnone, hnone']
    · rw [hfound, hfound', Option.bind_some, Option.bind_some, Option.map_or, Option.map_or,
        halike.map_text_eq (remembers_bindingEntry "alias"),
        halike.map_text_eq (remembers_bindingEntry "name")]

/-- An item that is widened inside is no name, with the blanks or without. -/
theorem describes_eq {item item' : List Char} (h : ItemAlike item item') :
    item = item' ∨ (identifier.describes item = false ∧ identifier.describes item' = false) := by
  refine h.imp_right ?_
  rintro ⟨w, hne, rfl, rfl⟩
  have hlast : Text.isBlank (w.before.getLast hne) = true :=
    w.before_blank _ (List.getLast?_eq_getLast_of_ne_nil hne)
  have hnot {more : List Char} : identifier.describes (w.before ++ more) = false := by
    rw [Bool.eq_false_iff]
    intro hdescribes
    have hplain := isBlank_eq_false_of_describes hdescribes (w.before.getLast hne)
      (List.mem_append_left _ (List.getLast_mem hne))
    rw [hlast] at hplain
    cases hplain
  exact ⟨hnot, hnot⟩

/-! ## Clauses -/

theorem filterMap_items_eq {text text' : List Char} {pick : List Char → Option String}
    (h : Widens text text') (hpick : ∀ {item item'}, ItemAlike item item' → pick item' = pick item) :
    (items text').filterMap pick = (items text).filterMap pick :=
  filterMap_eq_of_forall₂_of_eq (forall₂_items h) hpick

theorem blockNames_eq {clause clause' : List Char} (h : Widens clause clause') :
    blockNames clause' = blockNames clause := by
  obtain ⟨w, rfl, rfl⟩ := h
  rw [blockNames, blockNames]
  rcases none_or_some_of_rel (keeps_bindingBlock (w := w)).rel_find? with
    ⟨hnone, hnone'⟩ | ⟨block, block', hblock, hblock', halike⟩
  · rw [hnone, hnone']
  · rw [hblock, hblock']
    exact filterMap_items_eq (halike.widens_text "entries") boundName?_eq

theorem plainNames_eq {clause clause' : List Char} (h : Widens clause clause') :
    plainNames clause' = plainNames clause := by
  obtain ⟨w, rfl, rfl⟩ := h
  obtain ⟨outside, hnarrow, hwide⟩ := (keeps_namespaceBinding (w := w)).widens_blankOut
  rw [plainNames, plainNames, hnarrow, hwide]
  apply filterMap_items_eq keeps_bindingBlock.widens_blankOut
  intro item item' halike
  rcases describes_eq halike with rfl | ⟨hitem, hitem'⟩
  · rfl
  · rw [hitem, hitem', Bool.and_false, Bool.and_false]
    rfl

/-- A clause that is widened by blanks binds what it bound before. -/
theorem addClause_eq {clause clause' : List Char} (h : Widens clause clause')
    (bindings : RouterBindings) : bindings.addClause clause' = bindings.addClause clause := by
  have hspaces : (namespaceBinding.findAll clause').map (·.text "name") =
      (namespaceBinding.findAll clause).map (·.text "name") := by
    obtain ⟨w, rfl, rfl⟩ := h
    rw [← List.forall₂_eq_eq_eq, List.forall₂_map_left_iff, List.forall₂_map_right_iff]
    exact (keeps_namespaceBinding.forall₂_findAll.imp fun _ _ halike =>
      (halike.text_eq remembers_namespaceBinding).symm).flip
  rw [addClause, addClause, blockNames_eq h, plainNames_eq h, hspaces]

end LayerLint.Source.RouterBindings
