import LayerLint.Json.Basic
import LayerLint.Proofs.Dict

/-! # Changes behind a path of keys

A value is changed at the end of a path of keys: what is there is taken out, or another value takes
its place. Behind that path the change is what is found, above it there is a changed object where
there was an object, and everywhere else the value is as it was.
-/

namespace LayerLint.Json

variable {change value : Option Json} {key other : String} {path rest : List String}

/-- What is found behind a path of keys. -/
def follow : List String → Option Json → Option Json
  | [], value => value
  | key :: rest, value => follow rest (value.bind (get? · key))

/-- The members with a new value for a key, or without that key. -/
def setMember (members : List (String × Json)) (key : String) (new : Option Json) :
    List (String × Json) :=
  members.filter (·.1 != key) ++ new.toList.map (key, ·)

/-- The value with a change behind a path of keys. A path that leads through anything but an object
ends nowhere, and the value is left as it is. -/
def put (change : Option Json) : List String → Option Json → Option Json
  | [], _ => change
  | key :: rest, some (.object members) =>
      some (.object (setMember members key (put change rest (lastOf? members key))))
  | _ :: _, value => value

/-- The value with a change behind a path of at least one key. -/
def edit (value : Json) (path : List String) (change : Option Json) : Json :=
  (put change path (some value)).getD value

/-! ## One key -/

theorem lookup_filter_bne (members : List (String × Json)) (key other : String) :
    (members.filter (·.1 != key)).lookup other =
      if other = key then none else members.lookup other := by
  induction members with
  | nil => simp
  | cons member rest ih =>
      by_cases hkey : member.1 = key
      · rw [List.filter_cons_of_neg (by simpa using hkey), ih, Dict.lookup_cons_eq_ite, hkey]
        split <;> rfl
      · rw [List.filter_cons_of_pos (by simpa using hkey), Dict.lookup_cons_eq_ite, ih,
          Dict.lookup_cons_eq_ite]
        by_cases hother : other = member.1
        · rw [if_pos hother, if_pos hother, if_neg fun heq => hkey (hother.symm.trans heq)]
        · rw [if_neg hother, if_neg hother]

theorem lastOf?_setMember (members : List (String × Json)) (key other : String)
    (new : Option Json) : lastOf? (setMember members key new) other =
      if other = key then new else lastOf? members other := by
  rw [lastOf?, setMember, List.reverse_append, List.lookup_append, ← List.filter_reverse,
    lookup_filter_bne, lastOf?]
  cases new with
  | none => simp
  | some new =>
      by_cases hkey : other = key
      · simp [hkey]
      · simp [hkey, Dict.lookup_cons_eq_ite]

theorem cases_object (value : Option Json) :
    (∃ members, value = some (.object members)) ∨ value.bind object? = none := by
  cases value with
  | none => exact .inr rfl
  | some value =>
      cases value with
      | object members => exact .inl ⟨members, rfl⟩
      | _ => exact .inr rfl

theorem bind_get?_eq_none (h : value.bind object? = none) (key : String) :
    value.bind (get? · key) = none := by
  have hmembers : value.bind (get? · key) = (value.bind object?).bind (lastOf? · key) :=
    (Option.bind_assoc ..).symm
  rw [hmembers, h, Option.bind_none]

theorem put_eq_self (hpath : path ≠ []) (h : value.bind object? = none) :
    put change path value = value := by
  obtain ⟨key, rest, rfl⟩ := List.exists_cons_of_ne_nil hpath
  cases value with
  | none => rfl
  | some value =>
      cases value with
      | object members => cases h
      | _ => rfl

theorem get?_put_object (members : List (String × Json)) (other : String) :
    (put change (key :: rest) (some (.object members))).bind (get? · other) =
      if other = key then put change rest (lastOf? members key) else lastOf? members other :=
  lastOf?_setMember members key other _

theorem get?_put_of_ne (h : other ≠ key) :
    (put change (key :: rest) value).bind (get? · other) = value.bind (get? · other) := by
  obtain ⟨members, rfl⟩ | hnone := cases_object value
  · rw [get?_put_object, if_neg h]
    rfl
  · rw [put_eq_self (List.cons_ne_nil key rest) hnone]

/-! ## A path of keys -/

theorem follow_none (path : List String) : follow path none = none := by
  induction path with
  | nil => rfl
  | cons key rest ih => exact ih

/-- Off the path nothing changes. -/
theorem follow_put_of_not_prefix {path place : List String} {value : Option Json}
    (h : ¬ path <+: place) (h' : ¬ place <+: path) :
    follow place (put change path value) = follow place value := by
  induction path generalizing place value with
  | nil => exact (h List.nil_prefix).elim
  | cons key rest ih =>
      obtain ⟨other, behind, rfl⟩ := List.exists_cons_of_ne_nil fun hnil : place = [] =>
        h' (hnil ▸ List.nil_prefix)
      rw [follow, follow]
      by_cases hkey : other = key
      · subst hkey
        rw [List.prefix_cons_inj] at h h'
        obtain ⟨members, rfl⟩ | hnone := cases_object value
        · rw [get?_put_object, if_pos rfl]
          exact ih h h'
        · rw [put_eq_self (List.cons_ne_nil other rest) hnone]
      · rw [get?_put_of_ne hkey]

/-- What is there is replaced by the change. -/
theorem follow_put_self (h : follow path value ≠ none) :
    follow path (put change path value) = change := by
  induction path generalizing value with
  | nil => rfl
  | cons key rest ih =>
      rw [follow] at h ⊢
      obtain ⟨members, rfl⟩ | hnone := cases_object value
      · rw [get?_put_object, if_pos rfl]
        exact ih h
      · rw [bind_get?_eq_none hnone, follow_none] at h
        exact (h rfl).elim

/-- What is found at the end of the path or behind it is in the change. It may not be found, if the
path ends nowhere. -/
theorem follow_put_append (change : Option Json) (path behind : List String)
    (value : Option Json) :
    follow (path ++ behind) (put change path value) = follow behind change ∨
      follow (path ++ behind) (put change path value) = none := by
  induction path generalizing value with
  | nil => exact .inl rfl
  | cons key rest ih =>
      rw [List.cons_append, follow]
      obtain ⟨members, rfl⟩ | hnone := cases_object value
      · rw [get?_put_object, if_pos rfl]
        exact ih _
      · rw [put_eq_self (List.cons_ne_nil key rest) hnone, bind_get?_eq_none hnone, follow_none]
        exact .inr rfl

/-- Above the end of the path a changed value is found. -/
theorem follow_put_above (place : List String) {behind : List String} (hne : behind ≠ [])
    (value : Option Json) :
    follow place (put change (place ++ behind) value) = put change behind (follow place value) := by
  induction place generalizing value with
  | nil => rfl
  | cons key rest ih =>
      rw [List.cons_append, follow, follow]
      obtain ⟨members, rfl⟩ | hnone := cases_object value
      · rw [get?_put_object, if_pos rfl]
        exact ih _
      · rw [put_eq_self (List.cons_ne_nil key _) hnone, bind_get?_eq_none hnone, follow_none,
          put_eq_self hne rfl]

theorem some_edit (value : Json) (hpath : path ≠ []) :
    some (value.edit path change) = put change path (some value) := by
  obtain ⟨members, hvalue⟩ | hnone := cases_object (some value)
  · obtain ⟨key, rest, rfl⟩ := List.exists_cons_of_ne_nil hpath
    rw [edit, hvalue]
    rfl
  · rw [edit, put_eq_self hpath hnone]
    rfl

end LayerLint.Json
