/-! # Dictionaries

A dictionary lists keys and their values in strictly increasing order of the keys. The order is
part of the type, so that two dictionaries with the same content are equal.
-/

namespace LayerLint

/-- Keys with values, in strictly increasing order of the keys. -/
structure Dict (α : Type) where
  toList : List (String × α)
  sorted : toList.Pairwise fun first second => first.1 < second.1

namespace Dict

variable {α : Type}

instance [DecidableEq α] : DecidableEq (Dict α) := fun first second =>
  decidable_of_iff (first.toList = second.toList) (by cases first; cases second; simp)

/-- The dictionary without keys. -/
def empty : Dict α := ⟨[], .nil⟩

instance : EmptyCollection (Dict α) := ⟨empty⟩

/-- Puts a key and its value at their place in an ordered list. -/
def place (key : String) (value : α) : List (String × α) → List (String × α)
  | [] => [(key, value)]
  | next :: rest =>
      if key < next.1 then (key, value) :: next :: rest
      else if next.1 < key then next :: place key value rest
      else (key, value) :: rest

/-- An entry of the list with a new key is that key's or an old one. -/
theorem mem_place {key : String} {value : α} {entries : List (String × α)} {entry : String × α}
    (h : entry ∈ place key value entries) : entry.1 = key ∨ entry ∈ entries := by
  induction entries with
  | nil => simp only [place, List.mem_singleton] at h; exact .inl (h ▸ rfl)
  | cons next rest ih =>
      unfold place at h
      split at h
      · rcases List.mem_cons.mp h with rfl | hmem
        · exact .inl rfl
        · exact .inr hmem
      · split at h
        · rcases List.mem_cons.mp h with rfl | hmem
          · exact .inr List.mem_cons_self
          · exact (ih hmem).imp_right (List.mem_cons_of_mem _)
        · rcases List.mem_cons.mp h with rfl | hmem
          · exact .inl rfl
          · exact .inr (List.mem_cons_of_mem _ hmem)

theorem sorted_place {key : String} {value : α} {entries : List (String × α)}
    (h : entries.Pairwise fun first second => first.1 < second.1) :
    (place key value entries).Pairwise fun first second => first.1 < second.1 := by
  induction entries with
  | nil => simp [place]
  | cons next rest ih =>
      obtain ⟨hnext, hrest⟩ := List.pairwise_cons.mp h
      unfold place
      split
      next hlt =>
        refine List.pairwise_cons.mpr ⟨fun entry hmem => ?_, h⟩
        rcases List.mem_cons.mp hmem with rfl | hmem
        · exact hlt
        · exact String.lt_trans hlt (hnext entry hmem)
      next hge =>
        split
        next hgt =>
          refine List.pairwise_cons.mpr ⟨fun entry hmem => ?_, ih hrest⟩
          rcases mem_place hmem with heq | hmem
          · exact heq ▸ hgt
          · exact hnext entry hmem
        next hle =>
          have heq : next.1 = key :=
            String.le_antisymm (String.not_lt.mp hge) (String.not_lt.mp hle)
          exact List.pairwise_cons.mpr ⟨fun entry hmem => heq ▸ hnext entry hmem, hrest⟩

/-- The dictionary with a value for a key, in place of any other value of that key. -/
def insert (dict : Dict α) (key : String) (value : α) : Dict α :=
  ⟨place key value dict.toList, sorted_place dict.sorted⟩

/-- The dictionary of a list of keys and values; later ones replace earlier ones. -/
def ofList (entries : List (String × α)) : Dict α :=
  entries.foldl (fun dict entry => dict.insert entry.1 entry.2) empty

/-- The value of a key. -/
def get? (dict : Dict α) (key : String) : Option α :=
  dict.toList.lookup key

/-- Whether there is no key. -/
def isEmpty (dict : Dict α) : Bool :=
  dict.toList.isEmpty

/-- The dictionary with the value of one key changed; a key without a value counts as one that has
the value `unset`. -/
def modify (dict : Dict α) (key : String) (unset : α) (change : α → α) : Dict α :=
  dict.insert key (change ((dict.get? key).getD unset))

end Dict

end LayerLint
