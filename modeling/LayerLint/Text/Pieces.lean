/-! # Cutting and joining texts

A text is cut at every character of a class, keeping empty pieces, and pieces are joined again
with a separator between them. The beginnings and ends of texts are recognised here too.
-/

namespace LayerLint.Text

/-- The pieces of `text` between the characters for which `cut` holds. There is always at least
one piece, and two neighbouring cuts have an empty piece between them. -/
def pieces (cut : Char → Bool) (text : String) : List String :=
  (text.toList.splitOnP cut).map String.ofList

/-- What follows `start` at the beginning of `text`, if `text` begins that way. -/
def afterStart? (start text : String) : Option String :=
  (start.toList.isPrefixOf? text.toList).map String.ofList

/-- What precedes `finish` at the end of `text`, if `text` ends that way. -/
def beforeEnd? (finish text : String) : Option String :=
  (finish.toList.isSuffixOf? text.toList).map String.ofList

/-- Whether `text` begins with `start`. -/
def beginsWith (start text : String) : Bool :=
  start.toList.isPrefixOf text.toList

/-- The text without the run of `c` at its beginning. -/
def dropLeading (c : Char) (text : String) : String :=
  String.ofList (text.toList.dropWhile (· == c))

/-- The items with `separator` between neighbours. -/
def joinWith (separator : String) (items : List String) : String :=
  separator.intercalate items

end LayerLint.Text
