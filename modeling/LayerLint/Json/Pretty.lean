import LayerLint.Json.Basic

/-! # Writing JSON texts

Values are written with one item or member a line, indented by two spaces for each container
around it. Empty containers stay on their line. Control characters, quotes and backslashes are
escaped, and every other character is written as it is.
-/

namespace LayerLint.Json

/-- A hexadecimal digit. -/
def hexChar (n : Nat) : Char :=
  Char.ofNat (if n < 10 then '0'.toNat + n else 'a'.toNat + (n - 10))

/-- A character inside a string. -/
def escape (c : Char) : List Char :=
  if c = '"' then ['\\', '"']
  else if c = '\\' then ['\\', '\\']
  else if c = '\x08' then ['\\', 'b']
  else if c = '\x0c' then ['\\', 'f']
  else if c = '\n' then ['\\', 'n']
  else if c = '\r' then ['\\', 'r']
  else if c = '\t' then ['\\', 't']
  else if c.toNat < 0x20 then
    ['\\', 'u', '0', '0', hexChar (c.toNat / 16), hexChar (c.toNat % 16)]
  else [c]

/-- A string with its quotes. -/
def quote (text : String) : List Char :=
  '"' :: text.toList.flatMap escape ++ ['"']

/-- A line break and the indentation of a line at some depth. -/
def newLine (depth : Nat) : List Char :=
  '\n' :: List.replicate (2 * depth) ' '

mutual

/-- A value at some depth. -/
def render (depth : Nat) : Json → List Char
  | null => "null".toList
  | bool true => "true".toList
  | bool false => "false".toList
  | natural value => (toString value).toList
  | number text => text.toList
  | string value => quote value
  | array [] => "[]".toList
  | array (first :: rest) =>
      '[' :: newLine (depth + 1) ++ render (depth + 1) first ++ renderItems (depth + 1) rest ++
        newLine depth ++ [']']
  | object [] => ['\x7b', '\x7d']
  | object ((key, first) :: rest) =>
      '\x7b' :: newLine (depth + 1) ++ quote key ++ ": ".toList ++ render (depth + 1) first ++
        renderMembers (depth + 1) rest ++ newLine depth ++ ['\x7d']

/-- The items behind the first one. -/
def renderItems (depth : Nat) : List Json → List Char
  | [] => []
  | item :: rest => ',' :: newLine depth ++ render depth item ++ renderItems depth rest

/-- The members behind the first one. -/
def renderMembers (depth : Nat) : List (String × Json) → List Char
  | [] => []
  | (key, value) :: rest =>
      ',' :: newLine depth ++ quote key ++ ": ".toList ++ render depth value ++
        renderMembers depth rest

end

/-- The text of a value. -/
def pretty (value : Json) : String :=
  String.ofList (render 0 value)

end LayerLint.Json
