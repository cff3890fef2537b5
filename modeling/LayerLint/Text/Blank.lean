import LayerLint.Text.CodeRanges

/-! # Blank characters

Unicode's `White_Space` property, which decides what separates two words of a source text and
what is cut off both ends of a list item.
-/

namespace LayerLint.Text

/-- The code points of the `White_Space` property. -/
def blankRanges : CodeRanges :=
  [(0x9, 0xD), (0x20, 0x20), (0x85, 0x85), (0xA0, 0xA0), (0x1680, 0x1680), (0x2000, 0x200A),
    (0x2028, 0x2029), (0x202F, 0x202F), (0x205F, 0x205F), (0x3000, 0x3000)]

/-- Whether a character is blank: a space, a line break or another `White_Space` character. -/
def isBlank (c : Char) : Bool :=
  blankRanges.covers c.toNat

/-- The text without the blank characters at both ends. -/
def trimChars (text : List Char) : List Char :=
  ((text.dropWhile isBlank).reverse.dropWhile isBlank).reverse

/-- The text without the blank characters at both ends. -/
def trim (text : String) : String :=
  String.ofList (trimChars text.toList)

end LayerLint.Text
