import LayerLint.Text.Pieces
import Mathlib.Data.List.Infix

/-! # Cutting after joining

Cutting undoes joining as long as no item contains the separator, so a joined text determines its
items. What a text begins with, and what follows, are the two parts that it is made of.
-/

namespace LayerLint.Text

theorem eq_false_of_mem_splitOnP {cut : Char → Bool} {text piece : List Char}
    (h : piece ∈ text.splitOnP cut) {c : Char} (hc : c ∈ piece) : cut c = false := by
  induction text generalizing piece with
  | nil =>
      obtain rfl : piece = [] := by simpa using h
      cases hc
  | cons first rest ih =>
      rw [List.splitOnP_cons_eq_if_modifyHead] at h
      split at h
      next =>
        rcases List.mem_cons.mp h with rfl | h
        · cases hc
        · exact ih h hc
      next hkept =>
        -- the first piece of the rest goes on with `first`, the others are what they were
        obtain ⟨head, tail, heq⟩ := List.exists_cons_of_ne_nil (List.splitOnP_ne_nil cut rest)
        rw [heq] at h ih
        rcases List.mem_cons.mp h with rfl | h
        · rcases List.mem_cons.mp hc with rfl | hc
          · simpa using hkept
          · exact ih List.mem_cons_self hc
        · exact ih (List.mem_cons_of_mem _ h) hc

theorem eq_false_of_mem_pieces {cut : Char → Bool} {text piece : String}
    (h : piece ∈ pieces cut text) {c : Char} (hc : c ∈ piece.toList) : cut c = false := by
  obtain ⟨chars, hmem, rfl⟩ := List.mem_map.mp h
  exact eq_false_of_mem_splitOnP hmem (by simpa using hc)

theorem head?_splitOnP (cut : Char → Bool) (text : List Char) :
    (text.splitOnP cut).head? = some (text.takeWhile fun c => !cut c) := by
  induction text with
  | nil => simp
  | cons c rest ih =>
      rw [List.splitOnP_cons_eq_if_modifyHead, List.takeWhile_cons]
      cases cut c with
      | true => rfl
      | false => simp [List.head?_modifyHead, ih]

/-- The first piece ends in front of the first cut. -/
theorem head?_pieces (cut : Char → Bool) (text : String) :
    (pieces cut text).head? = some (String.ofList (text.toList.takeWhile fun c => !cut c)) := by
  rw [pieces, List.head?_map, head?_splitOnP, Option.map_some]

theorem isInfix_of_mem_splitOnP {c : Char} {text piece : List Char}
    (h : piece ∈ text.splitOnP (· == c)) : piece <:+: text := by
  rw [← List.splitOn_eq_splitOnP] at h
  obtain ⟨i, hi⟩ := List.mem_iff_getElem?.mp h
  have hmem : piece ∈ (text.splitOn c).intersperse [c] := by
    rw [← List.getElem?_intersperse_two_mul] at hi
    exact List.mem_of_getElem? hi
  have hwhole : ((text.splitOn c).intersperse [c]).flatten = text := List.intercalate_splitOn c
  exact hwhole ▸ List.infix_of_mem_flatten hmem

theorem pieces_joinWith {c : Char} {items : List String} (hne : items ≠ [])
    (h : ∀ item ∈ items, c ∉ item.toList) :
    pieces (· == c) (joinWith (String.singleton c) items) = items := by
  have hsplit : ([c].intercalate (items.map String.toList)).splitOn c = items.map String.toList :=
    List.splitOn_intercalate c (by simpa using h) (by simpa using hne)
  rw [pieces, joinWith, String.toList_intercalate, String.toList_singleton,
    ← List.splitOn_eq_splitOnP, hsplit]
  simp

/-- The pieces between single characters make up the text again. -/
theorem joinWith_pieces (c : Char) (text : String) :
    joinWith (String.singleton c) (pieces (· == c) text) = text := by
  have hjoin : [c].intercalate (text.toList.splitOn c) = text.toList := List.intercalate_splitOn c
  have htexts : (pieces (· == c) text).map String.toList = text.toList.splitOn c := by
    rw [pieces, List.map_map, List.splitOn_eq_splitOnP]
    simp [Function.comp_def]
  rw [← String.toList_inj, joinWith, String.toList_intercalate, String.toList_singleton, htexts,
    hjoin]

theorem joinWith_injective {c : Char} {first second : List String} (hfirst : first ≠ [])
    (hsecond : second ≠ []) (h : ∀ item ∈ first, c ∉ item.toList)
    (h' : ∀ item ∈ second, c ∉ item.toList)
    (heq : joinWith (String.singleton c) first = joinWith (String.singleton c) second) :
    first = second := by
  rw [← pieces_joinWith hfirst h, heq, pieces_joinWith hsecond h']

theorem joinWith_append {separator : String} {first second : List String} (hfirst : first ≠ [])
    (hsecond : second ≠ []) :
    joinWith separator (first ++ second) =
      joinWith separator first ++ separator ++ joinWith separator second :=
  String.intercalate_append_of_ne_nil hfirst hsecond

theorem mem_toList_joinWith {separator : String} {items : List String} {c : Char}
    (h : c ∈ (joinWith separator items).toList) :
    c ∈ separator.toList ∨ ∃ item ∈ items, c ∈ item.toList := by
  induction items with
  | nil => simp [joinWith] at h
  | cons item rest ih =>
      by_cases hrest : rest = []
      · subst hrest
        exact .inr ⟨item, List.mem_cons_self, by simpa [joinWith] using h⟩
      · have hparts : joinWith separator (item :: rest) =
            item ++ separator ++ joinWith separator rest := by
          simpa [joinWith] using joinWith_append (List.cons_ne_nil item []) hrest
        rw [hparts, String.toList_append, String.toList_append, List.mem_append,
          List.mem_append] at h
        obtain (hitem | hseparator) | hlater := h
        · exact .inr ⟨item, List.mem_cons_self, hitem⟩
        · exact .inl hseparator
        · exact (ih hlater).imp_right fun ⟨other, hother, hc⟩ =>
            ⟨other, List.mem_cons_of_mem _ hother, hc⟩

theorem pieces_append_of_cut {cut : Char → Bool} {c : Char} (hcut : cut c = true)
    (first second : String) :
    pieces cut (first ++ String.singleton c ++ second) = pieces cut first ++ pieces cut second := by
  have hchars : (first ++ String.singleton c ++ second).toList =
      first.toList ++ c :: second.toList := by
    simp
  rw [pieces, hchars, List.splitOnP_append_cons _ _ hcut, List.map_append]
  rfl

theorem pieces_eq_singleton {cut : Char → Bool} {text : String}
    (h : ∀ c ∈ text.toList, cut c = false) : pieces cut text = [text] := by
  rw [pieces, List.splitOnP_eq_singleton h, List.map_singleton, String.ofList_toList]

/-- Joined items are cut at the separators, and wherever each of them is cut. -/
theorem pieces_joinWith_of_cut {cut : Char → Bool} {c : Char} (hcut : cut c = true)
    {items : List String} (hne : items ≠ []) :
    pieces cut (joinWith (String.singleton c) items) = items.flatMap (pieces cut) := by
  induction items with
  | nil => exact (hne rfl).elim
  | cons item rest ih =>
      cases rest with
      | nil => simp [joinWith]
      | cons next rest =>
          have hjoin : joinWith (String.singleton c) (item :: next :: rest) =
              item ++ String.singleton c ++ joinWith (String.singleton c) (next :: rest) := by
            simp [joinWith, String.intercalate_cons_cons]
          rw [hjoin, pieces_append_of_cut hcut, ih (by simp)]
          rfl

/-! ## Beginnings and ends -/

theorem afterStart?_eq_some_iff {start text rest : String} :
    afterStart? start text = some rest ↔ text = start ++ rest := by
  rw [afterStart?, Option.map_eq_some_iff]
  constructor
  · rintro ⟨chars, hchars, rfl⟩
    rw [List.isPrefixOf?_eq_some_iff_append_eq] at hchars
    rw [← String.toList_inj, String.toList_append, String.toList_ofList, hchars]
  · rintro rfl
    exact ⟨rest.toList, by simp [List.isPrefixOf?_eq_some_iff_append_eq], String.ofList_toList⟩

theorem beginsWith_iff {start text : String} :
    beginsWith start text = true ↔ ∃ rest, text = start ++ rest := by
  rw [beginsWith, List.isPrefixOf_iff_prefix]
  constructor
  · rintro ⟨rest, heq⟩
    refine ⟨String.ofList rest, ?_⟩
    rw [← String.toList_inj, String.toList_append, String.toList_ofList, heq]
  · rintro ⟨rest, rfl⟩
    exact ⟨rest.toList, by simp⟩

theorem beforeEnd?_eq_some_iff {finish text rest : String} :
    beforeEnd? finish text = some rest ↔ text = rest ++ finish := by
  rw [beforeEnd?, Option.map_eq_some_iff]
  constructor
  · rintro ⟨chars, hchars, rfl⟩
    rw [List.isSuffixOf?_eq_some_iff_append_eq] at hchars
    rw [← String.toList_inj, String.toList_append, String.toList_ofList, hchars]
  · rintro rfl
    exact ⟨rest.toList, by simp [List.isSuffixOf?_eq_some_iff_append_eq], String.ofList_toList⟩

/-- Nothing is dropped where nothing of the kind stands. -/
theorem dropLeading_eq_self {c : Char} {text : String}
    (h : beginsWith (String.singleton c) text = false) : dropLeading c text = text := by
  have hkept : text.toList.dropWhile (· == c) = text.toList := by
    cases hchars : text.toList with
    | nil => rfl
    | cons first rest =>
        have hne : ¬ c = first := by simpa [beginsWith, hchars, List.isPrefixOf] using h
        rw [List.dropWhile_cons_of_neg]
        simpa using Ne.symm hne
  rw [dropLeading, hkept, String.ofList_toList]

/-- What is dropped is a run of the character, and what is left does not begin with it. -/
theorem exists_eq_append_dropLeading (c : Char) (text : String) :
    (∃ count, text = String.ofList (List.replicate count c) ++ dropLeading c text) ∧
      beginsWith (String.singleton c) (dropLeading c text) = false := by
  constructor
  · have hrun : ∀ d ∈ text.toList.takeWhile (· == c), d = c := by
      intro d hd
      simpa using List.all_eq_true.mp List.all_takeWhile d hd
    refine ⟨(text.toList.takeWhile (· == c)).length, ?_⟩
    rw [← List.eq_replicate_of_mem hrun, dropLeading, ← String.ofList_append,
      List.takeWhile_append_dropWhile, String.ofList_toList]
  · rw [beginsWith, dropLeading, String.toList_ofList, String.toList_singleton]
    cases hrest : text.toList.dropWhile (· == c) with
    | nil => rfl
    | cons first rest =>
        have hkept := List.head?_dropWhile_not (· == c) text.toList
        rw [hrest] at hkept
        have hne : ¬ first = c := by simpa using hkept
        simp [List.isPrefixOf, Ne.symm hne]

end LayerLint.Text
