import LayerLint.Dict
import LayerLint.Path.Normal

/-! # Path aliases

An alias replaces the beginning of an import specifier by a place in the tree. A key with a star at
its end matches whatever begins with the rest of the key; any other key matches itself and whatever
begins with it. A table lists its aliases by decreasing length of the key, ties in the order of the
keys, and the first one that matches is used.
-/

namespace LayerLint

/-- One alias. -/
structure Alias where
  /-- The key as given. -/
  key : String
  /-- The place as given. -/
  target : String
  deriving Repr, DecidableEq

namespace Alias

/-- A key or place without the star at its end. -/
def withoutStar (text : String) : String :=
  (Text.beforeEnd? "*" text).getD text

/-- What a specifier begins with to match the alias. -/
def stem (entry : Alias) : String :=
  withoutStar entry.key

/-- The place that the alias stands for. -/
def base (entry : Alias) : Path :=
  ⟨Path.toPosix (withoutStar entry.target)⟩

/-- What a matching specifier has after the alias: nothing if it is the key itself. -/
def remainder? (entry : Alias) (specifier : String) : Option String :=
  if specifier = entry.key then some ""
  else Text.afterStart? entry.stem specifier

/-- Whether the key of `first` stands before that of `second` in a table. -/
def before (first second : Alias) : Bool :=
  decide (second.key.utf8ByteSize < first.key.utf8ByteSize) ||
    (first.key.utf8ByteSize == second.key.utf8ByteSize && decide (first.key < second.key))

/-- The place that a specifier with this remainder leads to. Slashes that begin the remainder are
dropped, so that it can never replace the base. -/
def place (entry : Alias) (root : Path) (remainder : String) : Path :=
  -- a place that is not absolute starts from the root
  let base := if entry.base.isAbsolute then entry.base else root.join entry.base
  let rest := Text.dropLeading '/' remainder
  (if rest.isEmpty then base else base.join ⟨rest⟩).normalize

end Alias

/-- Aliases in the order in which they are tried. -/
structure AliasTable where
  entries : List Alias
  deriving Repr, DecidableEq

namespace AliasTable

/-- The table without aliases. -/
def empty : AliasTable := ⟨[]⟩

instance : EmptyCollection AliasTable := ⟨empty⟩

/-- Puts an alias at its place in an ordered list. -/
def place (entry : Alias) : List Alias → List Alias
  | [] => [entry]
  | next :: rest =>
      if entry.before next then entry :: next :: rest else next :: place entry rest

/-- The table with this alias in place of any other of the same key. -/
def put (table : AliasTable) (entry : Alias) : AliasTable :=
  ⟨place entry (table.entries.filter (·.key != entry.key))⟩

/-- Adds or replaces an alias. An empty key or an empty target says nothing. -/
def insert (table : AliasTable) (key target : String) : AliasTable :=
  if key.isEmpty || target.isEmpty then table else table.put ⟨key, target⟩

/-- The table of a list of keys and targets; later ones replace earlier ones. -/
def ofList (pairs : List (String × String)) : AliasTable :=
  pairs.foldl (fun table pair => table.insert pair.1 pair.2) empty

/-- The table with the aliases of `other` over its own. -/
def overlay (table other : AliasTable) : AliasTable :=
  other.entries.foldl put table

/-- The keys, longest first. -/
def keys (table : AliasTable) : List String :=
  table.entries.map Alias.key

/-- The number of aliases. -/
def size (table : AliasTable) : Nat :=
  table.entries.length

/-- Keys and targets as given, longest key first. -/
def toList (table : AliasTable) : List (String × String) :=
  table.entries.map fun entry => (entry.key, entry.target)

/-- The targets of the keys, both as given. -/
def toDict (table : AliasTable) : Dict String :=
  .ofList table.toList

/-- The first alias that matches a specifier, and what follows it there. -/
def find? (table : AliasTable) (specifier : String) : Option (Alias × String) :=
  table.entries.findSome? fun entry => (entry.remainder? specifier).map (entry, ·)

/-- Whether some alias matches a specifier. -/
def isMatch (table : AliasTable) (specifier : String) : Bool :=
  (table.find? specifier).isSome

/-- The place that an aliased specifier leads to. -/
def resolve? (table : AliasTable) (specifier : String) (root : Path) : Option Path :=
  (table.find? specifier).map fun found => found.1.place root found.2

end AliasTable

end LayerLint
