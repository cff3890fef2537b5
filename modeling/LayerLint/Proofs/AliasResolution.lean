import LayerLint.Proofs.AliasPriority
import LayerLint.Proofs.Path.Join
import LayerLint.Proofs.Text.ByteOrder

/-! # Where an aliased specifier leads

A specifier that some alias matches goes through the alias whose key stands before the keys of all
others that match: the longest one, and of the longest ones the first in the order of their bytes.
It leads to a place at or around the one that the alias stands for. The part of the specifier that
is left over is taken as a way from there, whatever slashes it begins with.
-/

namespace LayerLint

namespace Path

/-- What is joined and is not absolute is written behind the base. -/
theorem exists_text_join {path : Path} (base : Path) (h : path.isAbsolute = false) :
    ∃ tail, (base.join path).text = base.text ++ tail := by
  rw [join, h, if_neg Bool.false_ne_true]
  split
  · exact ⟨path.text, rfl⟩
  · exact ⟨"/" ++ path.text, String.append_assoc ..⟩

theorem normalize_join_empty (base : Path) : (base.join ⟨""⟩).normalize = base.normalize := by
  rw [normalize, normalComponents_join_empty, normalize]

end Path

namespace Alias

variable {entry other : Alias} {specifier rest : String}

/-- What a specifier has after the alias: nothing if it is the key, and otherwise what follows the
key without its star. -/
def LeavesOver (entry : Alias) (specifier rest : String) : Prop :=
  (specifier = entry.key ∧ rest = "") ∨ (specifier ≠ entry.key ∧ specifier = entry.stem ++ rest)

theorem remainder?_eq_some_iff :
    entry.remainder? specifier = some rest ↔ entry.LeavesOver specifier rest := by
  unfold remainder? LeavesOver
  split
  next heq => simp [heq, eq_comm]
  next hne => simp [hne, Text.afterStart?_eq_some_iff]

/-- The place from which the alias starts: its target without the star, backslashes turned into
slashes, seen from the root unless it is absolute. -/
def anchor (entry : Alias) (root : Path) : Path :=
  let base := Path.mk (Path.toPosix (withoutStar entry.target))
  if base.isAbsolute then base else root.join base

/-- What is left over of a specifier is a way from the place of the alias. -/
theorem place_eq (entry : Alias) (root : Path) (rest : String) :
    entry.place root rest =
      ((entry.anchor root).join ⟨Text.dropLeading '/' rest⟩).normalize := by
  have hplace : entry.place root rest = (if (Text.dropLeading '/' rest).isEmpty then
      entry.anchor root else (entry.anchor root).join ⟨Text.dropLeading '/' rest⟩).normalize := rfl
  rw [hplace]
  split
  next hempty =>
    rw [String.isEmpty_iff.mp hempty, Path.normalize_join_empty]
  next => rfl

/-- The alias is preferred to another: its key has more bytes, or as many and is less byte by
byte. -/
def IsPreferredTo (entry other : Alias) : Prop :=
  (Text.bytes other.key).length < (Text.bytes entry.key).length ∨
    ((Text.bytes entry.key).length = (Text.bytes other.key).length ∧
      Text.bytes entry.key < Text.bytes other.key)

theorem isPreferredTo_iff : entry.IsPreferredTo other ↔ entry.before other = true := by
  have hlength (text : String) : (Text.bytes text).length = text.utf8ByteSize := rfl
  rw [IsPreferredTo, before_iff, Text.bytes_lt_bytes_iff, hlength, hlength]

end Alias

namespace AliasTable

variable {table : AliasTable} {specifier : String}

theorem isMatch_iff : table.isMatch specifier = true ↔
    ∃ entry ∈ table.entries, specifier = entry.key ∨ ∃ rest, specifier = entry.stem ++ rest := by
  rw [isMatch, find?, List.findSome?_isSome_iff]
  refine exists_congr fun entry => and_congr_right fun _ => ?_
  rw [Option.isSome_map]
  exact Alias.matches_iff

theorem leavesOver_of_find? {entry : Alias} {rest : String}
    (h : table.find? specifier = some (entry, rest)) : entry.LeavesOver specifier rest := by
  obtain ⟨found, -, hfound⟩ := List.exists_of_findSome?_eq_some h
  obtain ⟨remainder, hremainder, heq⟩ := Option.map_eq_some_iff.mp hfound
  obtain ⟨rfl, rfl⟩ := Prod.mk.inj heq
  exact Alias.remainder?_eq_some_iff.mp hremainder

/-- What is found goes through the alias that is preferred to all others that match. -/
theorem IsOrdered.isPreferredTo_of_find? (h : table.IsOrdered) {entry : Alias} {rest : String}
    (hfind : table.find? specifier = some (entry, rest)) :
    ∀ other ∈ table.entries, other ≠ entry →
      (specifier = other.key ∨ ∃ more, specifier = other.stem ++ more) →
        entry.IsPreferredTo other := by
  intro other hother hne hmatch
  obtain ⟨-, -, hfirst⟩ := h.before_of_find? hfind
  rw [Alias.isPreferredTo_iff]
  exact (hfirst other hother (Alias.matches_iff.mpr hmatch)).resolve_left hne

/-- A specifier has no place exactly when it is neither relative nor absolute nor matched. -/
theorem resolve?_eq_none_iff (table : AliasTable) (specifier : String) (source root : Path) :
    Specifier.resolve? specifier source root table = none ↔
      Specifier.classify specifier table = .external := by
  have hlisted (hclass : Specifier.classify specifier table = .aliased) :
      table.isMatch specifier = true := by
    unfold Specifier.classify at hclass
    split at hclass
    next => cases hclass
    next =>
      split at hclass
      next => cases hclass
      next =>
        split at hclass
        next hmatch => exact hmatch
        next => cases hclass
  unfold Specifier.resolve?
  cases hclass : Specifier.classify specifier table with
  | relative | rootAbsolute => simp
  | external => simp
  | aliased =>
      have hfound := hlisted hclass
      rw [isMatch] at hfound
      obtain ⟨found, hfind⟩ := Option.isSome_iff_exists.mp hfound
      simp [resolve?, hfind]

/-- The aliases of a list are the last targets of its keys. A specifier has a place exactly when one
of them matches it, and then goes through the one that is preferred to all others that match it: to
the normal form of what is left over, without the slashes that it begins with, joined to the place
of the alias, which is never replaced. A specifier leads nowhere exactly when it is external. -/
theorem resolve?_through_preferred (pairs : List (String × String)) (specifier : String)
    (root : Path) :
    let table := AliasTable.ofList pairs
    (∀ entry : Alias, entry ∈ table.entries ↔
      (History.ofList pairs).last? entry.key = some entry.target) ∧
    (table.resolve? specifier root).isSome = table.isMatch specifier ∧
    (table.isMatch specifier = true ↔ ∃ entry ∈ table.entries,
      specifier = entry.key ∨ ∃ rest, specifier = entry.stem ++ rest) ∧
    (table.isMatch specifier = true → ∃ entry ∈ table.entries, ∃ rest slashes way,
      entry.LeavesOver specifier rest ∧
      (∀ other ∈ table.entries, other ≠ entry →
        (specifier = other.key ∨ ∃ more, specifier = other.stem ++ more) →
          entry.IsPreferredTo other) ∧
      rest = String.ofList (List.replicate slashes '/') ++ way ∧
      (Path.mk way).isAbsolute = false ∧
      table.resolve? specifier root = some ((entry.anchor root).join ⟨way⟩).normalize ∧
      ∃ tail, ((entry.anchor root).join ⟨way⟩).text = (entry.anchor root).text ++ tail) ∧
    ∀ source, Specifier.resolve? specifier source root table = none ↔
      Specifier.classify specifier table = .external := by
  intro table
  have htable : (History.ofList pairs).table = table := History.table_ofList pairs
  have hkept := (History.ofList pairs).isKept
  have hordered : table.IsOrdered := htable ▸ hkept.isOrdered
  refine ⟨fun entry => htable ▸ hkept.mem_iff entry, Option.isSome_map, isMatch_iff, ?_,
    fun source => resolve?_eq_none_iff table specifier source root⟩
  intro hmatch
  rw [isMatch] at hmatch
  obtain ⟨⟨entry, rest⟩, hfind⟩ := Option.isSome_iff_exists.mp hmatch
  obtain ⟨⟨slashes, hrest⟩, hway⟩ := Text.exists_eq_append_dropLeading '/' rest
  refine ⟨entry, (hordered.before_of_find? hfind).1, rest, slashes, Text.dropLeading '/' rest,
    leavesOver_of_find? hfind, hordered.isPreferredTo_of_find? hfind, hrest, hway, ?_,
    Path.exists_text_join _ hway⟩
  rw [resolve?, hfind, Option.map_some, Alias.place_eq]

/-- A specifier that two aliases match, with slashes behind the longer key. -/
theorem resolve?_through_preferred_of_slashes :
    let table := AliasTable.ofList [("@", "/lib"), ("@ui", "old"), ("@ui", "pack\\ui/*")]
    table.isMatch "@ui//etc/x" = true ∧
      table.resolve? "@ui//etc/x" ⟨"/repo"⟩ = some ⟨"/repo/pack/ui/etc/x"⟩ ∧
      ∃ entry ∈ table.entries, ∃ rest way, entry.LeavesOver "@ui//etc/x" rest ∧
        (Path.mk way).isAbsolute = false ∧ table.resolve? "@ui//etc/x" ⟨"/repo"⟩ =
          some ((entry.anchor ⟨"/repo"⟩).join ⟨way⟩).normalize := by
  intro table
  have hmatch : table.isMatch "@ui//etc/x" = true := by decide +kernel
  obtain ⟨entry, hentry, rest, slashes, way, hrest, -, -, hway, hplace, -⟩ :=
    (resolve?_through_preferred [("@", "/lib"), ("@ui", "old"), ("@ui", "pack\\ui/*")]
      "@ui//etc/x" ⟨"/repo"⟩).2.2.2.1 hmatch
  exact ⟨hmatch, by decide +kernel, entry, hentry, rest, way, hrest, hway, hplace⟩

end AliasTable

end LayerLint
