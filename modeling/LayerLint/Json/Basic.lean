/-! # JSON values

The values that configuration files hold and reports are written as. Members of an object keep the
order in which they are written; where a key is repeated, its last member counts.
-/

namespace LayerLint

/-- A JSON value. -/
inductive Json where
  | null
  | bool (value : Bool)
  /-- A number written as a plain sequence of digits that fits into 64 bits. -/
  | natural (value : Nat)
  /-- Any other number, as it is written. -/
  | number (text : String)
  | string (value : String)
  | array (items : List Json)
  | object (members : List (String × Json))
  deriving Repr, Inhabited

namespace Json

/-- The boolean, if the value is one. -/
def bool? : Json → Option Bool
  | bool value => some value
  | _ => none

/-- The number, if the value is a natural one of at most 64 bits. -/
def natural? : Json → Option Nat
  | natural value => some value
  | _ => none

/-- The text, if the value is one. -/
def string? : Json → Option String
  | string value => some value
  | _ => none

/-- The items, if the value is an array. -/
def array? : Json → Option (List Json)
  | array items => some items
  | _ => none

/-- The members, if the value is an object. -/
def object? : Json → Option (List (String × Json))
  | object members => some members
  | _ => none

/-- The value of a key in a list of members: that of its last member. -/
def lastOf? (members : List (String × Json)) (key : String) : Option Json :=
  members.reverse.lookup key

/-- The value of a key, if the value is an object that has it. -/
def get? (value : Json) (key : String) : Option Json :=
  value.object?.bind (lastOf? · key)

/-- An array of texts. -/
def strings (values : List String) : Json :=
  array (values.map string)

end Json

end LayerLint
