import LayerLint.Dict
import Mathlib.Data.List.Sort

/-! # Dictionaries as functions of their keys

A dictionary is described by the values of its keys. When items are entered one after another, the
value of a key comes from the items of that key alone.
-/

namespace LayerLint.Dict

variable {α : Type} {dict : Dict α} {key other : String} {value : α}

theorem lookup_cons_eq_ite (key : String) (entry : String × α) (entries : List (String × α)) :
    (entry :: entries).lookup key =
      if key = entry.1 then some entry.2 else entries.lookup key := by
  rw [List.lookup_cons]
  by_cases heq : key = entry.1
  · simp [heq]
  · rw [beq_false_of_ne heq, if_neg heq]

theorem lookup_place (key other : String) (value : α) (entries : List (String × α)) :
    (place key value entries).lookup other =
      if other = key then some value else entries.lookup other := by
  induction entries with
  | nil => simp [place, lookup_cons_eq_ite]
  | cons next rest ih =>
      unfold place
      split
      next => rw [lookup_cons_eq_ite]
      next hge =>
        split
        next hgt =>
          have hne : key ≠ next.1 := fun heq => String.lt_irrefl _ (heq ▸ hgt)
          rw [lookup_cons_eq_ite, ih, lookup_cons_eq_ite]
          by_cases heq : other = key
          · simp [heq, hne]
          · simp [heq]
        next hle =>
          have hsame : next.1 = key :=
            String.le_antisymm (String.not_lt.mp hge) (String.not_lt.mp hle)
          by_cases heq : other = key
          · simp [heq]
          · simp [lookup_cons_eq_ite, heq, hsame]

theorem get?_insert (dict : Dict α) (key other : String) (value : α) :
    (dict.insert key value).get? other = if other = key then some value else dict.get? other :=
  lookup_place key other value dict.toList

theorem get?_foldl_insert (entries : List (String × α)) (dict : Dict α) (key : String) :
    (entries.foldl (fun dict entry => dict.insert entry.1 entry.2) dict).get? key =
      (entries.reverse.lookup key).or (dict.get? key) := by
  induction entries generalizing dict with
  | nil => rfl
  | cons entry rest ih =>
      rw [List.foldl_cons, ih, get?_insert, List.reverse_cons, List.lookup_append, Option.or_assoc,
        lookup_cons_eq_ite]
      split <;> rfl

theorem get?_ofList (entries : List (String × α)) (key : String) :
    (ofList entries).get? key = entries.reverse.lookup key := by
  rw [ofList, get?_foldl_insert]
  exact Option.or_none

/-- Entries with different keys are looked up alike in any order. -/
theorem lookup_eq_of_perm {κ α : Type} [BEq κ] [LawfulBEq κ] {entries others : List (κ × α)}
    (hperm : entries.Perm others) (hkeys : (entries.map Prod.fst).Nodup) (key : κ) :
    entries.lookup key = others.lookup key := by
  induction hperm with
  | nil => rfl
  | cons entry _ ih => rw [List.lookup_cons, List.lookup_cons, ih (List.nodup_cons.mp hkeys).2]
  | swap first second rest =>
      obtain ⟨firstKey, value⟩ := first
      obtain ⟨secondKey, value'⟩ := second
      have hne : secondKey ≠ firstKey := fun heq =>
        (List.nodup_cons.mp hkeys).1 (heq ▸ List.mem_cons_self)
      simp only [List.lookup_cons]
      rcases hfirst : key == firstKey with _ | _
      · rfl
      · have hsecond : (key == secondKey) = false :=
          beq_false_of_ne (eq_of_beq hfirst ▸ hne.symm)
        rw [hsecond]
  | trans hperm _ ih ih' =>
      exact (ih hkeys).trans (ih' ((hperm.map Prod.fst).nodup_iff.mp hkeys))

theorem get?_modify (dict : Dict α) (key other : String) (unset : α) (change : α → α) :
    (dict.modify key unset change).get? other =
      if other = key then some (change ((dict.get? key).getD unset)) else dict.get? other :=
  get?_insert dict key other _

/-- With different keys, the value of a key is the one that it is listed with. -/
theorem lookup_eq_some_iff_mem {entries : List (String × α)}
    (hkeys : (entries.map Prod.fst).Nodup) :
    entries.lookup key = some value ↔ (key, value) ∈ entries := by
  induction entries with
  | nil => simp
  | cons next rest ih =>
      obtain ⟨hnext, hrest⟩ := List.nodup_cons.mp hkeys
      rw [lookup_cons_eq_ite, List.mem_cons]
      by_cases hsame : key = next.1
      · subst hsame
        have habsent : (next.1, value) ∉ rest := fun hmem =>
          hnext (List.mem_map.mpr ⟨_, hmem, rfl⟩)
        simp [habsent, Prod.ext_iff, eq_comm]
      · have hother : (key, value) ≠ next := fun heq => hsame (by rw [← heq])
        simp [hsame, hother, ih hrest]

theorem nodup_keys (dict : Dict α) : (dict.toList.map Prod.fst).Nodup := by
  refine List.pairwise_map.mpr (dict.sorted.imp ?_)
  intro first second hlt heq
  exact String.lt_irrefl _ (heq ▸ hlt)

/-- The value of a key is the one that it is listed with. -/
theorem get?_eq_some_iff : dict.get? key = some value ↔ (key, value) ∈ dict.toList :=
  lookup_eq_some_iff_mem dict.nodup_keys

/-- Dictionaries with the same values are the same. -/
theorem eq_of_get?_eq {first second : Dict α} (h : ∀ key, first.get? key = second.get? key) :
    first = second := by
  have : Std.Irrefl fun first second : String × α => first.1 < second.1 :=
    ⟨fun entry => String.lt_irrefl entry.1⟩
  have : Std.Antisymm fun first second : String × α => first.1 < second.1 :=
    ⟨fun _ _ hlt hgt => (String.lt_asymm hlt hgt).elim⟩
  have hlists : first.toList = second.toList := by
    apply first.sorted.eq_of_mem_iff second.sorted
    rintro ⟨key, value⟩
    rw [← get?_eq_some_iff, ← get?_eq_some_iff, h]
  cases first
  cases second
  simpa using hlists

/-- The dictionary without the keys that are not kept. -/
def restrict (dict : Dict α) (keep : String → Bool) : Dict α :=
  ⟨dict.toList.filter fun entry => keep entry.1, dict.sorted.filter _⟩

theorem get?_restrict (dict : Dict α) (keep : String → Bool) (key : String) :
    (dict.restrict keep).get? key = if keep key then dict.get? key else none := by
  apply Option.ext
  intro value
  rw [get?_eq_some_iff, restrict, List.mem_filter]
  split
  next hkeep => simp [hkeep, get?_eq_some_iff]
  next hkeep => simp [hkeep]

/-- A dictionary is entered again in the order of its keys. -/
theorem ofList_toList (dict : Dict α) : ofList dict.toList = dict := by
  apply eq_of_get?_eq
  intro key
  rw [get?_ofList, get?]
  exact (lookup_eq_of_perm dict.toList.reverse_perm.symm (nodup_keys dict) key).symm

theorem mem_keys_insert (dict : Dict α) (key other : String) (value : α) :
    other ∈ (dict.insert key value).toList.map Prod.fst ↔
      other = key ∨ other ∈ dict.toList.map Prod.fst := by
  have hkeys (dict : Dict α) : other ∈ dict.toList.map Prod.fst ↔
      ∃ value, dict.get? other = some value := by
    simp [get?_eq_some_iff]
  rw [hkeys, hkeys, get?_insert]
  split
  next heq => simp [heq]
  next hne => simp [hne]

theorem isSome_get?_ofList (entries : List (String × α)) (key : String) :
    ((ofList entries).get? key).isSome = true ↔ key ∈ entries.map Prod.fst := by
  rw [get?_ofList, List.lookup_isSome_iff, List.mem_map]
  refine exists_congr fun entry => ?_
  rw [List.mem_reverse, beq_iff_eq, eq_comm (a := key)]

theorem isEmpty_eq_true_iff : dict.isEmpty = true ↔ ∀ key, dict.get? key = none := by
  rw [isEmpty, List.isEmpty_iff]
  constructor
  · intro hnil key
    rw [get?, hnil, List.lookup_nil]
  · intro hnone
    rw [List.eq_nil_iff_forall_not_mem]
    rintro ⟨key, value⟩ hmem
    rw [← get?_eq_some_iff, hnone] at hmem
    cases hmem

/-- A dictionary without values is the set of its keys. -/
theorem eq_of_mem_keys_iff {first second : Dict Unit}
    (h : ∀ key, key ∈ first.toList.map Prod.fst ↔ key ∈ second.toList.map Prod.fst) :
    first = second := by
  apply eq_of_get?_eq
  intro key
  apply Option.ext
  rintro ⟨⟩
  rw [get?_eq_some_iff, get?_eq_some_iff]
  simpa [Unique.exists_iff] using h key

section Entering

variable {β : Type} (key : β → String) (unset : β → α) (change : β → α → α)

/-- What holds of a key's items and its value, and still does after one more item of that key,
holds after any items are entered. -/
theorem get?_foldl_modify (other : String) {motive : List β → Option α → Prop}
    (hstep : ∀ seen item value, key item = other → motive seen value →
      motive (seen ++ [item]) (some (change item (value.getD (unset item)))))
    (items seen : List β) (dict : Dict α) (h : motive seen (dict.get? other)) :
    motive (seen ++ items.filter (key · = other))
      ((items.foldl (fun dict item => dict.modify (key item) (unset item) (change item)) dict).get?
        other) := by
  induction items generalizing seen dict with
  | nil => simpa using h
  | cons item rest ih =>
      rw [List.foldl_cons]
      by_cases hkey : key item = other
      · have hnext := ih (seen ++ [item]) (dict.modify (key item) (unset item) (change item)) (by
          rw [get?_modify, if_pos hkey.symm, hkey]
          exact hstep seen item _ hkey h)
        simpa [hkey] using hnext
      · have hnext := ih seen (dict.modify (key item) (unset item) (change item)) (by
          rwa [get?_modify, if_neg (Ne.symm hkey)])
        simpa [hkey] using hnext

end Entering

end LayerLint.Dict
