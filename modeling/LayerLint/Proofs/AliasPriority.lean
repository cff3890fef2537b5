import LayerLint.Proofs.AliasHistory
import LayerLint.Proofs.Text.Pieces

/-! # Which alias is used

Of the aliases that match a specifier the one with the longest key is used, and the star at the end
of a key counts for its length. No part of a specifier stands for the star, though. So the alias
that is used leaves no longer part of the specifier to another one, but for a single case: a key with
a star comes before a key of the same size that the specifier begins with to its end.
-/

namespace LayerLint

namespace Alias

variable {entry other : Alias} {specifier : String}

/-- A key that matches whatever begins with the rest of it. -/
def IsWildcard (entry : Alias) : Prop :=
  entry.key = entry.stem ++ "*"

instance (entry : Alias) : Decidable entry.IsWildcard :=
  inferInstanceAs (Decidable (_ = _))

/-- Whether a specifier may go through the alias. -/
def Matches (entry : Alias) (specifier : String) : Prop :=
  (entry.remainder? specifier).isSome = true

instance (entry : Alias) (specifier : String) : Decidable (entry.Matches specifier) :=
  inferInstanceAs (Decidable (_ = _))

/-- The number of bytes of a specifier that the key of the alias stands for: all of the key if it is
the specifier, and otherwise the key without its star. -/
def matchedLength (entry : Alias) (specifier : String) : Nat :=
  if specifier = entry.key then entry.key.utf8ByteSize else entry.stem.utf8ByteSize

theorem isWildcard_or_stem_eq_key (entry : Alias) : entry.IsWildcard ∨ entry.stem = entry.key := by
  unfold IsWildcard stem withoutStar
  cases hstar : Text.beforeEnd? "*" entry.key with
  | none => exact .inr rfl
  | some rest => exact .inl (Text.beforeEnd?_eq_some_iff.mp hstar)

theorem IsWildcard.size_key (h : entry.IsWildcard) :
    entry.key.utf8ByteSize = entry.stem.utf8ByteSize + 1 := by
  rw [h, String.utf8ByteSize_append]
  rfl

theorem matches_iff : entry.Matches specifier ↔
    specifier = entry.key ∨ ∃ rest, specifier = entry.stem ++ rest := by
  unfold Matches remainder?
  split
  next h => simp [h]
  next h =>
    rw [Option.isSome_iff_exists]
    simp only [Text.afterStart?_eq_some_iff, h, false_or]

/-- A part of a specifier that it begins with is determined by its size. -/
theorem eq_of_append_eq_append {first second rest rest' : String}
    (h : first ++ rest = second ++ rest')
    (hsize : first.utf8ByteSize = second.utf8ByteSize) : first = second := by
  have hdata := congrArg (fun text => text.toByteArray.data) h
  simp only [String.toByteArray_append, ByteArray.data_append] at hdata
  have hfirst := (Array.append_inj hdata hsize).1
  exact String.toByteArray_inj.mp (ByteArray.ext hfirst)

/-- The key of a matching alias is longer than what it stands for by its star at most. -/
theorem matchedLength_cases (entry : Alias) (specifier : String) :
    (entry.IsWildcard ∧ specifier ≠ entry.key ∧
        entry.key.utf8ByteSize = entry.matchedLength specifier + 1) ∨
      (¬(entry.IsWildcard ∧ specifier ≠ entry.key) ∧
        entry.key.utf8ByteSize = entry.matchedLength specifier) := by
  unfold matchedLength
  split
  next heq => exact .inr ⟨fun h => h.2 heq, rfl⟩
  next hne =>
    rcases entry.isWildcard_or_stem_eq_key with hstar | hstem
    · exact .inl ⟨hstar, hne, hstar.size_key⟩
    · by_cases hstar : entry.IsWildcard
      · exact .inl ⟨hstar, hne, hstar.size_key⟩
      · exact .inr ⟨fun h => hstar h.1, by rw [hstem]⟩

theorem size_le_of_before (h : entry.before other = true) :
    other.key.utf8ByteSize ≤ entry.key.utf8ByteSize := by
  rcases before_iff.mp h with hlt | ⟨heq, -⟩ <;> omega

/-- Two keys of one size that end with a star and match a specifier are the same. -/
theorem key_eq_of_isWildcard (hentry : entry.IsWildcard) (hother : other.IsWildcard)
    (hmatch : entry.Matches specifier) (hmatch' : other.Matches specifier)
    (hne : specifier ≠ entry.key) (hne' : specifier ≠ other.key)
    (hsize : other.key.utf8ByteSize = entry.key.utf8ByteSize) : other.key = entry.key := by
  obtain ⟨rest, hrest⟩ := (matches_iff.mp hmatch).resolve_left hne
  obtain ⟨rest', hrest'⟩ := (matches_iff.mp hmatch').resolve_left hne'
  have hstem : other.stem = entry.stem := by
    apply eq_of_append_eq_append (hrest'.symm.trans hrest)
    have := hentry.size_key
    have := hother.size_key
    omega
  rw [hentry, hother, hstem]

end Alias

namespace AliasTable

variable {table : AliasTable} {entry other : Alias} {specifier rest : String}

/-- The alias that is used matches, and stands before all others that do. -/
theorem IsOrdered.before_of_find? (h : table.IsOrdered)
    (hfind : table.find? specifier = some (entry, rest)) :
    entry ∈ table.entries ∧ entry.Matches specifier ∧
      ∀ other ∈ table.entries, other.Matches specifier →
        other = entry ∨ entry.before other = true := by
  obtain ⟨ahead, found, behind, hentries, hfound, hahead⟩ := List.findSome?_eq_some_iff.mp hfind
  obtain ⟨remainder, hremainder, heq⟩ := Option.map_eq_some_iff.mp hfound
  obtain ⟨rfl, rfl⟩ := Prod.mk.inj heq
  refine ⟨by simp [hentries], by rw [Alias.Matches, hremainder]; rfl, ?_⟩
  intro other hother hmatch
  rw [IsOrdered, hentries] at h
  rw [hentries, List.mem_append, List.mem_cons] at hother
  rcases hother with hother | rfl | hother
  · have hnone := Option.map_eq_none_iff.mp (hahead other hother)
    rw [Alias.Matches, hnone] at hmatch
    cases hmatch
  · exact .inl rfl
  · exact .inr ((List.pairwise_cons.mp (List.pairwise_append.mp h).2.1).1 other hother)

/-- Only a star makes the alias that is used stand for less of the specifier than another one. -/
theorem IsOrdered.matchedLength_lt_iff (h : table.IsOrdered)
    (hfind : table.find? specifier = some (entry, rest)) (hother : other ∈ table.entries)
    (hmatch : other.Matches specifier) :
    entry.matchedLength specifier < other.matchedLength specifier ↔
      other ≠ entry ∧ other.key.utf8ByteSize = entry.key.utf8ByteSize ∧
        entry.IsWildcard ∧ specifier ≠ entry.key := by
  obtain ⟨-, hused, hfirst⟩ := h.before_of_find? hfind
  have hlength := entry.matchedLength_cases specifier
  have hlength' := other.matchedLength_cases specifier
  rcases hfirst other hother hmatch with rfl | hbefore
  · simp
  · have hkey := Alias.key_ne_of_before hbefore
    have hle := Alias.size_le_of_before hbefore
    constructor
    · intro hlt
      rcases hlength with ⟨hstar, hne, hlength⟩ | ⟨-, hlength⟩
      · exact ⟨fun heq => hkey (by rw [heq]), by omega, hstar, hne⟩
      · omega
    · rintro ⟨-, hsize, hstar, hne⟩
      rcases hlength' with ⟨hstar', hne', -⟩ | ⟨-, hlength'⟩
      · have hsame := Alias.key_eq_of_isWildcard hstar hstar' hused hmatch hne hne' hsize
        exact (hkey hsame.symm).elim
      · have := hlength.resolve_right fun h => h.1 ⟨hstar, hne⟩
        omega

/-- Only a star brings another alias in front of the one whose key is the specifier. -/
theorem IsOrdered.eq_or_isWildcard_of_key_eq (h : table.IsOrdered)
    (hfind : table.find? specifier = some (entry, rest)) (hother : other ∈ table.entries)
    (hkey : other.key = specifier) :
    other = entry ∨ entry.IsWildcard ∧ (entry.stem = specifier ∨
      entry.key.utf8ByteSize = specifier.utf8ByteSize) := by
  obtain ⟨-, hused, hfirst⟩ := h.before_of_find? hfind
  have hmatch : other.Matches specifier := Alias.matches_iff.mpr (.inl hkey.symm)
  refine (hfirst other hother hmatch).imp_right fun hbefore => ?_
  have hne : specifier ≠ entry.key := fun heq =>
    Alias.key_ne_of_before hbefore (heq.symm.trans hkey.symm)
  have hle := Alias.size_le_of_before hbefore
  rw [hkey] at hle
  obtain ⟨more, hmore⟩ := (Alias.matches_iff.mp hused).resolve_left hne
  have hsize : specifier.utf8ByteSize = entry.stem.utf8ByteSize + more.utf8ByteSize := by
    rw [hmore, String.utf8ByteSize_append]
  -- what the specifier has behind the stem is no longer than the star
  have hshort : entry.stem = specifier ∨ more.utf8ByteSize ≠ 0 := by
    by_cases hempty : more.utf8ByteSize = 0
    · rw [String.utf8ByteSize_eq_zero_iff.mp hempty, String.append_empty] at hmore
      exact .inl hmore.symm
    · exact .inr hempty
  rcases entry.isWildcard_or_stem_eq_key with hstar | hstem
  · have := hstar.size_key
    refine ⟨hstar, hshort.imp_right fun hmore => ?_⟩
    omega
  · rw [hstem] at hsize hshort
    exact (hne (hshort.resolve_right (by omega)).symm).elim

namespace History

/-- The alias that a specifier goes through leaves it to another matching alias to stand for more of
it in one case alone: its key ends with a star, and the other key has the same size and no star to
match. Then the other one, which stands for one byte more, is not used. An alias whose key is the
specifier is used unless there is such a key, or the same key with a star behind it. -/
theorem shadowed_iff_of_find? (history : History) (specifier rest : String) (entry : Alias)
    (hfind : history.table.find? specifier = some (entry, rest)) :
    (∀ root, history.table.resolve? specifier root = some (entry.place root rest)) ∧
    (∀ other ∈ history.table.entries, other.Matches specifier →
      (entry.matchedLength specifier < other.matchedLength specifier ↔
        other ≠ entry ∧ other.key.utf8ByteSize = entry.key.utf8ByteSize ∧
          entry.IsWildcard ∧ specifier ≠ entry.key)) ∧
    ∀ other ∈ history.table.entries, other.key = specifier → other = entry ∨
      entry.IsWildcard ∧
        (entry.stem = specifier ∨ entry.key.utf8ByteSize = specifier.utf8ByteSize) := by
  have hordered := history.isKept.isOrdered
  refine ⟨fun root => ?_, ?_, ?_⟩
  · rw [resolve?, hfind]
    rfl
  · intro other hother hmatch
    exact hordered.matchedLength_lt_iff hfind hother hmatch
  · intro other hother hkey
    exact hordered.eq_or_isWildcard_of_key_eq hfind hother hkey

/-- Of three nested aliases the innermost one is used, and no other stands for more. -/
theorem shadowed_iff_of_nested :
    let history := ofList [("@/*", "src/*"), ("@/ui", "ui"), ("@/ui/*", "packages/ui/*")]
    history.table.find? "@/ui/button" = some (⟨"@/ui/*", "packages/ui/*"⟩, "button") ∧
      ∀ other ∈ history.table.entries, other.Matches "@/ui/button" →
        other.matchedLength "@/ui/button" ≤ 5 := by
  intro history
  have hfind : history.table.find? "@/ui/button" =
      some (⟨"@/ui/*", "packages/ui/*"⟩, "button") := by decide +kernel
  refine ⟨hfind, fun other hother hmatch => ?_⟩
  have hshadows := (history.shadowed_iff_of_find? _ _ _ hfind).2.1 other hother hmatch
  have hsizes : ∀ other ∈ history.table.entries, other ≠ ⟨"@/ui/*", "packages/ui/*"⟩ →
      other.key.utf8ByteSize ≠ 6 := by decide +kernel
  have hlength : Alias.matchedLength ⟨"@/ui/*", "packages/ui/*"⟩ "@/ui/button" = 5 := by
    decide +kernel
  rw [hlength] at hshadows
  by_contra hlt
  obtain ⟨hne, hsize, -⟩ := hshadows.mp (Nat.not_le.mp hlt)
  exact hsizes other hother hne hsize

/-- A key with a star is used in place of a key of the same size that is the specifier. -/
theorem star_shadows_key :
    let history := ofList [("@/*", "src/*"), ("@/a", "lib/a")]
    history.table.find? "@/a" = some (⟨"@/*", "src/*"⟩, "a") ∧
      history.table.resolve? "@/a" ⟨"/repo"⟩ = some ⟨"/repo/src/a"⟩ ∧
      ∃ other ∈ history.table.entries, other.key = "@/a" ∧ other.Matches "@/a" ∧
        Alias.matchedLength ⟨"@/*", "src/*"⟩ "@/a" < other.matchedLength "@/a" := by
  intro history
  refine ⟨by decide +kernel, by decide +kernel, ⟨"@/a", "lib/a"⟩, ?_⟩
  decide +kernel

end History

end AliasTable

end LayerLint
