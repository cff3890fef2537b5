import LayerLint.Context.Basic
import LayerLint.Proofs.AliasTable
import LayerLint.Proofs.Dict
import LayerLint.Specifier
import Mathlib.Data.List.Induction

/-! # How alias tables come about

A table is made by inserting aliases one by one and by laying whole tables over one another. It
keeps the target that each key was given last, and nothing else of how it was made: tables that
give the same targets to the same keys are the same table.
-/

namespace LayerLint.AliasTable

/-- The steps by which a table was made. -/
inductive History where
  | empty
  | insert (before : History) (key target : String)
  | overlay (before upper : History)
  deriving Repr, DecidableEq

namespace History

/-- The table that the steps make. -/
def table : History → AliasTable
  | empty => .empty
  | insert before key target => before.table.insert key target
  | overlay before upper => before.table.overlay upper.table

/-- The target that the steps give to a key last. To insert an empty key or an empty target gives
nothing. -/
def last? (key : String) : History → Option String
  | empty => none
  | insert before written target =>
      if written = key ∧ written ≠ "" ∧ target ≠ "" then some target else before.last? key
  | overlay before upper => (upper.last? key).or (before.last? key)

/-- Inserting the keys and targets of a list, from its beginning. -/
def ofList (pairs : List (String × String)) : History :=
  pairs.foldl (fun history pair => history.insert pair.1 pair.2) empty

variable {history : History} {key target : String}

theorem ne_empty_of_last? (h : history.last? key = some target) : key ≠ "" ∧ target ≠ "" := by
  induction history with
  | empty => cases h
  | insert before written given ih =>
      rw [last?] at h
      split at h
      next hgiven =>
        obtain ⟨rfl, hwritten, hne⟩ := hgiven
        cases h
        exact ⟨hwritten, hne⟩
      next => exact ih h
  | overlay before upper ihbefore ihupper =>
      rcases Option.or_eq_some_iff.mp h with h | ⟨-, h⟩
      · exact ihupper h
      · exact ihbefore h

end History

/-! ## Steps -/

variable {table upper : AliasTable}

theorem IsOrdered.nodup_keys (h : table.IsOrdered) : (table.entries.map Alias.key).Nodup := by
  refine List.pairwise_map.mpr (h.imp ?_)
  intro first second hbefore
  exact Alias.key_ne_of_before hbefore

/-- Laying a table over another is inserting its aliases. -/
theorem overlay_eq_foldl_insert (table : AliasTable)
    (h : ∀ entry ∈ upper.entries, entry.key ≠ "" ∧ entry.target ≠ "") :
    table.overlay upper =
      upper.entries.foldl (fun table entry => table.insert entry.key entry.target) table := by
  rw [overlay]
  generalize upper.entries = entries at h ⊢
  induction entries generalizing table with
  | nil => rfl
  | cons entry rest ih =>
      obtain ⟨⟨hkey, htarget⟩, hrest⟩ := List.forall_mem_cons.mp h
      have hput : table.insert entry.key entry.target = table.put entry := by
        simp [insert, hkey, htarget]
      rw [List.foldl_cons, List.foldl_cons, hput]
      exact ih (table.put entry) hrest

/-- The targets of an ordered table are those of its aliases. -/
theorem IsOrdered.get?_toDict_eq_some_iff (h : table.IsOrdered) {key target : String} :
    table.toDict.get? key = some target ↔ ⟨key, target⟩ ∈ table.entries := by
  have hkeys : (table.toList.map Prod.fst).Nodup := by
    rw [toList, List.map_map]
    exact h.nodup_keys
  rw [toDict, Dict.get?_ofList, Dict.lookup_eq_of_perm table.toList.reverse_perm
    ((table.toList.reverse_perm.map Prod.fst).nodup_iff.mpr hkeys),
    Dict.lookup_eq_some_iff_mem hkeys, toList, List.mem_map]
  constructor
  · rintro ⟨entry, hentry, heq⟩
    cases heq
    exact hentry
  · intro hentry
    exact ⟨_, hentry, rfl⟩

/-! ## Whole histories -/

namespace History

variable {history other : History} {key target : String}

/-- What is left of a history: the aliases are in order, and they are the last targets. -/
structure IsKept (history : History) : Prop where
  isOrdered : history.table.IsOrdered
  mem_iff : ∀ member, member ∈ history.table.entries ↔
    history.last? member.key = some member.target

theorem isKept_empty : IsKept empty where
  isOrdered := isOrdered_empty
  mem_iff member := by simp [table, last?, AliasTable.empty]

theorem IsKept.insert (h : history.IsKept) (key target : String) :
    (history.insert key target).IsKept where
  isOrdered := h.isOrdered.insert key target
  mem_iff member := by
    obtain ⟨written, given⟩ := member
    rw [table, mem_insert, h.mem_iff, last?]
    dsimp only
    split
    next hlast =>
      obtain ⟨rfl, hkey, htarget⟩ := hlast
      simp [hkey, htarget, eq_comm]
    next hlast =>
      rw [Alias.mk.injEq]
      constructor
      · rintro (⟨⟨rfl, rfl⟩, hne⟩ | ⟨hbefore, -⟩)
        · exact (hlast ⟨rfl, hne⟩).elim
        · exact hbefore
      · intro hbefore
        refine .inr ⟨hbefore, ?_⟩
        rintro rfl
        tauto

theorem IsKept.overlay {upper : History} (h : history.IsKept) (hupper : upper.IsKept) :
    (history.overlay upper).IsKept := by
  have hne : ∀ entry ∈ upper.table.entries, entry.key ≠ "" ∧ entry.target ≠ "" := by
    intro entry hentry
    exact ne_empty_of_last? ((hupper.mem_iff entry).mp hentry)
  have hkeys : ∀ member ∈ history.table.entries, member.key ≠ "" := by
    intro member hmember
    exact (ne_empty_of_last? ((h.mem_iff member).mp hmember)).1
  have htable := overlay_eq_foldl_insert history.table hne
  constructor
  · rw [table, htable]
    exact h.isOrdered.foldl_insert _ _ _
  · intro member
    have hgiven : (∃ entry ∈ upper.table.entries, entry.key ≠ "" ∧
        member = ⟨entry.key, entry.target⟩) ↔ upper.last? member.key = some member.target := by
      rw [← hupper.mem_iff]
      constructor
      · rintro ⟨entry, hentry, -, rfl⟩
        exact hentry
      · intro hmember
        exact ⟨member, hmember, (hne member hmember).1, rfl⟩
    have hfree : (∀ entry ∈ upper.table.entries, member.key ≠ entry.key) ↔
        upper.last? member.key = none := by
      rw [Option.eq_none_iff_forall_ne_some]
      constructor
      · intro hkeys target hlast
        exact hkeys ⟨member.key, target⟩ ((hupper.mem_iff _).mpr hlast) rfl
      · intro hnone entry hentry heq
        exact hnone entry.target (heq ▸ (hupper.mem_iff entry).mp hentry)
    rw [table, htable, mem_foldl_insert hupper.isOrdered.nodup_keys
      (fun entry hentry => (hne entry hentry).2) hkeys, hgiven, hfree, h.mem_iff, last?,
      Option.or_eq_some_iff, and_comm (a := history.last? member.key = some member.target)]

/-- What one step keeps, a whole history keeps. -/
theorem isKept (history : History) : history.IsKept := by
  induction history with
  | empty => exact isKept_empty
  | insert before key target ih => exact ih.insert key target
  | overlay before upper ihbefore ihupper => exact ihbefore.overlay ihupper

theorem get?_toDict_table (history : History) (key : String) :
    history.table.toDict.get? key = history.last? key := by
  apply Option.ext
  intro target
  rw [history.isKept.isOrdered.get?_toDict_eq_some_iff, history.isKept.mem_iff]

/-- Nothing but the last targets is left of a history. -/
theorem table_eq_of_toDict_eq (h : history.table.toDict = other.table.toDict) :
    history.table = other.table := by
  apply history.isKept.isOrdered.eq_of_mem_iff other.isKept.isOrdered
  intro member
  rw [history.isKept.mem_iff, other.isKept.mem_iff, ← get?_toDict_table, ← get?_toDict_table, h]

/-! ## Lists of keys and targets -/

theorem table_ofList (pairs : List (String × String)) :
    (ofList pairs).table = AliasTable.ofList pairs := by
  have hfoldl (history : History) :
      (pairs.foldl (fun history pair => history.insert pair.1 pair.2) history).table =
        pairs.foldl (fun table pair => table.insert pair.1 pair.2) history.table := by
    induction pairs generalizing history with
    | nil => rfl
    | cons pair rest ih => exact ih (history.insert pair.1 pair.2)
  exact hfoldl empty

/-- With different keys, each key is given its own target, unless one of the two is empty. -/
theorem last?_ofList {pairs : List (String × String)} (hkeys : (pairs.map Prod.fst).Nodup) :
    (ofList pairs).last? key = some target ↔ (key, target) ∈ pairs ∧ key ≠ "" ∧ target ≠ "" := by
  induction pairs using List.reverseRecOn with
  | nil => simp [ofList, last?]
  | append_singleton pairs pair ih =>
      obtain ⟨written, given⟩ := pair
      rw [List.map_append, List.nodup_append] at hkeys
      obtain ⟨hkeys, -, hfresh⟩ := hkeys
      have hconcat : ofList (pairs ++ [(written, given)]) =
          (ofList pairs).insert written given := by
        rw [ofList, List.foldl_append]
        rfl
      rw [hconcat, last?, List.mem_append, List.mem_singleton, Prod.mk.injEq]
      split
      next hlast =>
        obtain ⟨rfl, hwritten, hgiven⟩ := hlast
        have habsent : (written, target) ∉ pairs := by
          intro hmem
          exact hfresh written (List.mem_map.mpr ⟨_, hmem, rfl⟩) written (by simp) rfl
        simp only [habsent, false_or, Option.some.injEq, true_and]
        constructor
        · rintro rfl
          exact ⟨rfl, hwritten, hgiven⟩
        · rintro ⟨rfl, -⟩
          rfl
      next hlast =>
        rw [ih hkeys]
        constructor
        · rintro ⟨hmem, hne⟩
          exact ⟨.inl hmem, hne⟩
        · rintro ⟨hmem | ⟨rfl, rfl⟩, hne⟩
          · exact ⟨hmem, hne⟩
          · exact (hlast ⟨rfl, hne⟩).elim

/-- A dictionary gives each key its value, unless one of the two is empty. -/
theorem last?_ofList_toList (dict : Dict String) (key : String) :
    (ofList dict.toList).last? key =
      if key = "" then none else (dict.get? key).filter (· != "") := by
  apply Option.ext
  intro target
  rw [last?_ofList dict.nodup_keys, ← Dict.get?_eq_some_iff]
  split
  next hempty => simp [hempty]
  next hne => simp [hne, Option.filter_eq_some_iff]

/-! ## The result -/

/-- However a table was made, its keys are not empty, different, and listed from the longest to the
shortest, those of one length in their order; and each key has the target that it was given last.
Tables with the same targets are the same and so answer alike. Aliases that are discovered have the
targets of the settings over their own. -/
theorem table_of_any_history (history : History) :
    ("" ∉ history.table.keys ∧ history.table.keys.Nodup ∧
      history.table.keys.Pairwise fun first second =>
        second.utf8ByteSize < first.utf8ByteSize ∨
          (first.utf8ByteSize = second.utf8ByteSize ∧ first < second)) ∧
    (∀ key, history.table.toDict.get? key = history.last? key) ∧
    (∀ other : History, other.table.toDict = history.table.toDict →
      other.table = history.table ∧ other.table.keys = history.table.keys ∧
        ∀ specifier,
          other.table.isMatch specifier = history.table.isMatch specifier ∧
          (∀ root, other.table.resolve? specifier root = history.table.resolve? specifier root) ∧
          Specifier.classify specifier other.table = Specifier.classify specifier history.table) ∧
    ∀ (context : Context) (key : String),
      (context.withDiscovered history.table).aliases.toDict.get? key =
        (if key = "" then none else (context.config.pathAliases.get? key).filter (· != "")).or
          (history.table.toDict.get? key) := by
  have hkept := history.isKept
  refine ⟨⟨?_, hkept.isOrdered.nodup_keys, ?_⟩, history.get?_toDict_table, ?_, ?_⟩
  · rintro hempty
    obtain ⟨member, hmember, hkey⟩ := List.mem_map.mp hempty
    exact (ne_empty_of_last? ((hkept.mem_iff member).mp hmember)).1 hkey
  · refine List.pairwise_map.mpr (hkept.isOrdered.imp ?_)
    intro first second hbefore
    exact Alias.before_iff.mp hbefore
  · intro other hsame
    rw [table_eq_of_toDict_eq hsame]
    exact ⟨rfl, rfl, fun specifier => ⟨rfl, fun root => rfl, rfl⟩⟩
  · intro context key
    have htable : (context.withDiscovered history.table).aliases =
        (history.overlay (ofList context.config.pathAliases.toList)).table := by
      rw [table, table_ofList, Context.withDiscovered]
    rw [htable, get?_toDict_table, get?_toDict_table, last?, last?_ofList_toList]

/-- Two ways of giving the same last targets: by replacing an alias, and by laying a table over
another. -/
theorem table_of_two_histories :
    let first := ((empty.insert "@/*" "app/*").insert "~" "lib").insert "@/*" "src/*"
    let second := ((empty.insert "~" "lib").insert "@" "").overlay (empty.insert "@/*" "src/*")
    first.table.toDict = second.table.toDict ∧ first.table = second.table ∧
      first.table.keys = ["@/*", "~"] := by
  intro first second
  have hsame : first.table.toDict = second.table.toDict := by decide +kernel
  exact ⟨hsame, ((table_of_any_history second).2.2.1 first hsame).1, by decide +kernel⟩

end History

end LayerLint.AliasTable
