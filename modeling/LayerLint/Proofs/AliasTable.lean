import LayerLint.Alias
import Mathlib.Data.List.Sort

/-! # What alias tables hold

A table keeps its aliases in a strict order of their keys, so that it has at most one of each key
and its members determine it. Inserting an alias takes away the one of the same key and no other.
-/

namespace LayerLint

namespace Alias

variable {first second third : Alias}

theorem before_iff : first.before second = true ↔
    second.key.utf8ByteSize < first.key.utf8ByteSize ∨
      (first.key.utf8ByteSize = second.key.utf8ByteSize ∧ first.key < second.key) := by
  simp [before]

theorem before_trans (hfirst : first.before second = true) (hsecond : second.before third = true) :
    first.before third = true := by
  rw [before_iff] at *
  rcases hfirst with hlt | ⟨heq, hlt⟩
  · left
    omega
  · rcases hsecond with hlt' | ⟨heq', hlt'⟩
    · left
      omega
    · exact .inr ⟨heq.trans heq', String.lt_trans hlt hlt'⟩

theorem key_ne_of_before (h : first.before second = true) : first.key ≠ second.key := by
  intro heq
  rw [before_iff, heq] at h
  rcases h with hlt | ⟨-, hlt⟩
  · exact Nat.lt_irrefl _ hlt
  · exact String.lt_irrefl _ hlt

/-- Aliases of different keys are in order one way or the other. -/
theorem before_of_not_before (hkey : first.key ≠ second.key) (h : ¬ first.before second = true) :
    second.before first = true := by
  rw [before_iff] at *
  rw [not_or, not_and, Nat.not_lt] at h
  obtain ⟨hsize, hlt⟩ := h
  rcases Nat.lt_or_eq_of_le hsize with hsize | hsize
  · exact .inl hsize
  · refine .inr ⟨hsize.symm, ?_⟩
    apply String.not_le.mp
    intro hle
    exact hkey (String.le_antisymm hle (String.not_lt.mp (hlt hsize)))

end Alias

namespace AliasTable

variable {table other : AliasTable} {entries : List Alias} {entry member : Alias}
variable {key target : String}

/-- Each alias of the table stands before those behind it. -/
def IsOrdered (table : AliasTable) : Prop :=
  table.entries.Pairwise fun first second => first.before second = true

theorem isOrdered_empty : IsOrdered empty := .nil

/-- The members of an ordered table leave no choice for their order. -/
theorem IsOrdered.eq_of_mem_iff (h : table.IsOrdered) (hother : other.IsOrdered)
    (hmem : ∀ member, member ∈ table.entries ↔ member ∈ other.entries) : table = other := by
  have : Std.Irrefl fun first second : Alias => first.before second = true :=
    ⟨fun _ hbefore => Alias.key_ne_of_before hbefore rfl⟩
  have : Std.Antisymm fun first second : Alias => first.before second = true :=
    ⟨fun _ _ hfirst hsecond =>
      (Alias.key_ne_of_before (Alias.before_trans hfirst hsecond) rfl).elim⟩
  have hentries : table.entries = other.entries :=
    List.Pairwise.eq_of_mem_iff h hother fun {member} => hmem member
  cases table
  cases other
  exact congrArg AliasTable.mk hentries

theorem mem_place : member ∈ place entry entries ↔ member = entry ∨ member ∈ entries := by
  induction entries with
  | nil => simp [place]
  | cons next rest ih =>
      rw [place]
      split
      · rw [List.mem_cons]
      · rw [List.mem_cons, ih, List.mem_cons, or_left_comm]

theorem pairwise_place (h : entries.Pairwise fun first second => first.before second = true)
    (hkey : ∀ other ∈ entries, other.key ≠ entry.key) :
    (place entry entries).Pairwise fun first second => first.before second = true := by
  induction entries with
  | nil => simp [place]
  | cons next rest ih =>
      obtain ⟨hnext, hrest⟩ := List.pairwise_cons.mp h
      obtain ⟨hne, hkeys⟩ := List.forall_mem_cons.mp hkey
      rw [place]
      split
      next hbefore =>
        refine List.pairwise_cons.mpr ⟨List.forall_mem_cons.mpr ⟨hbefore, ?_⟩, h⟩
        intro other hother
        exact Alias.before_trans hbefore (hnext other hother)
      next hbehind =>
        refine List.pairwise_cons.mpr ⟨?_, ih hrest hkeys⟩
        intro other hother
        rcases mem_place.mp hother with rfl | hother
        · exact Alias.before_of_not_before hne.symm hbehind
        · exact hnext other hother

theorem mem_put : member ∈ (table.put entry).entries ↔
    member = entry ∨ (member ∈ table.entries ∧ member.key ≠ entry.key) := by
  rw [put, mem_place, List.mem_filter, bne_iff_ne]

theorem IsOrdered.put (h : table.IsOrdered) (entry : Alias) : (table.put entry).IsOrdered := by
  apply pairwise_place (h.filter _)
  intro other hother
  exact bne_iff_ne.mp (List.mem_filter.mp hother).2

/-- An alias with an empty key or target is not inserted. -/
theorem mem_insert : member ∈ (table.insert key target).entries ↔
    (member = ⟨key, target⟩ ∧ key ≠ "" ∧ target ≠ "") ∨
      (member ∈ table.entries ∧ (member.key = key → key = "" ∨ target = "")) := by
  have hinsert : table.insert key target =
      if key = "" ∨ target = "" then table else table.put ⟨key, target⟩ := by
    simp [insert]
  rw [hinsert]
  split
  next hskip => tauto
  next hput =>
    rw [mem_put]
    tauto

theorem IsOrdered.insert (h : table.IsOrdered) (key target : String) :
    (table.insert key target).IsOrdered := by
  rw [AliasTable.insert]
  split
  · exact h
  · exact h.put _

theorem key_ne_of_mem_insert (h : ∀ member ∈ table.entries, member.key ≠ "") :
    ∀ member ∈ (table.insert key target).entries, member.key ≠ "" := by
  intro member hmember
  rcases mem_insert.mp hmember with ⟨rfl, hkey, -⟩ | ⟨hmember, -⟩
  · exact hkey
  · exact h member hmember

theorem IsOrdered.foldl_insert {α : Type} (h : table.IsOrdered) (items : List α)
    (key target : α → String) :
    (items.foldl (fun table item => table.insert (key item) (target item)) table).IsOrdered := by
  induction items generalizing table with
  | nil => exact h
  | cons item rest ih => exact ih (h.insert _ _)

/-- Items with different keys are inserted, and take away what has their keys. -/
theorem mem_foldl_insert {α : Type} {items : List α} {key target : α → String}
    (hkeys : (items.map key).Nodup) (htargets : ∀ item ∈ items, target item ≠ "")
    (hne : ∀ member ∈ table.entries, member.key ≠ "") :
    member ∈ (items.foldl (fun table item => table.insert (key item) (target item)) table).entries ↔
      (∃ item ∈ items, key item ≠ "" ∧ member = ⟨key item, target item⟩) ∨
        (member ∈ table.entries ∧ ∀ item ∈ items, member.key ≠ key item) := by
  induction items generalizing table with
  | nil => simp
  | cons item rest ih =>
      obtain ⟨hfresh, hkeys⟩ := List.nodup_cons.mp hkeys
      obtain ⟨htarget, htargets⟩ := List.forall_mem_cons.mp htargets
      rw [List.foldl_cons, ih hkeys htargets (key_ne_of_mem_insert hne), mem_insert,
        List.exists_mem_cons_iff, List.forall_mem_cons]
      constructor
      · rintro (hrest | ⟨⟨rfl, hkey, -⟩ | ⟨hold, hother⟩, hothers⟩)
        · exact .inl (.inr hrest)
        · exact .inl (.inl ⟨hkey, rfl⟩)
        · refine .inr ⟨hold, ?_, hothers⟩
          intro heq
          rcases hother heq with hempty | hempty
          · exact hne member hold (heq.trans hempty)
          · exact htarget hempty
      · rintro ((⟨hkey, rfl⟩ | hrest) | ⟨hold, hother, hothers⟩)
        · refine .inr ⟨.inl ⟨rfl, hkey, htarget⟩, ?_⟩
          intro later hlater heq
          exact hfresh (List.mem_map.mpr ⟨later, hlater, heq.symm⟩)
        · exact .inl hrest
        · exact .inr ⟨.inr ⟨hold, fun heq => (hother heq).elim⟩, hothers⟩

end AliasTable

end LayerLint
