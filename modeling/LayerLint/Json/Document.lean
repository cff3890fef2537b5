import LayerLint.Json.Token

/-! # Reading a JSON text

The tokens of a text are read one by one. What has been opened and not yet closed stands on a
stack of frames, and the reader knows what may come next. A text is accepted when one value has
been read and nothing is left open.
-/

namespace LayerLint.Json

/-- A container that has been opened, with what is already in it, the last one first. -/
inductive Frame where
  | array (done : List Json)
  /-- An object whose next value belongs to `key`. -/
  | object (done : List (String × Json)) (key : String)

/-- What the reader waits for. -/
inductive Reader where
  /-- A value. -/
  | value (frames : List Frame)
  /-- The first item of an array, or its end. -/
  | item (frames : List Frame)
  /-- A key, or the end of an object that is still empty. -/
  | key (done : List (String × Json)) (frames : List Frame)
  /-- The colon behind a key. -/
  | colon (key : String) (done : List (String × Json)) (frames : List Frame)
  /-- What may follow a value. -/
  | behind (value : Json) (frames : List Frame)

namespace Reader

/-- How many containers may stand inside one another. -/
def depthLimit : Nat := 127

/-- Reads the first token of a value. -/
def openValue (frames : List Frame) : Token → Option Reader
  | .quoted text => some (behind (.string text) frames)
  | .scalar plain => some (behind plain frames)
  | .openBracket => if frames.length < depthLimit then some (item frames) else none
  | .openBrace => if frames.length < depthLimit then some (key [] frames) else none
  | _ => none

/-- Reads one token. -/
def read : Reader → Token → Option Reader
  | value frames, token => openValue frames token
  | item frames, .closeBracket => some (behind (.array []) frames)
  | item frames, token => openValue (.array [] :: frames) token
  | key done frames, .quoted text => some (colon text done frames)
  | key [] frames, .closeBrace => some (behind (.object []) frames)
  | colon text done frames, .colon => some (value (.object done text :: frames))
  | behind last (.array done :: frames), .comma => some (value (.array (last :: done) :: frames))
  | behind last (.array done :: frames), .closeBracket =>
      some (behind (.array (last :: done).reverse) frames)
  | behind last (.object done text :: frames), .comma => some (key ((text, last) :: done) frames)
  | behind last (.object done text :: frames), .closeBrace =>
      some (behind (.object ((text, last) :: done).reverse) frames)
  | _, _ => none

/-- The value of which all tokens have been read. -/
def finished? : Reader → Option Json
  | behind result [] => some result
  | _ => none

end Reader

/-- The value that a text spells, if it is a JSON text. -/
def parse? (text : String) : Option Json := do
  let tokens ← Token.list? text.toList
  let reader ← tokens.foldlM Reader.read (.value [])
  reader.finished?

end LayerLint.Json
