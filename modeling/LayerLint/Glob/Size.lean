import LayerLint.Glob

/-! # The size of a glob

A glob stands for two automata over the bytes of a text, one that reads it forwards and one that
reads it backwards. What they take, in bytes, adds up over the pieces of the glob. A glob is refused
when one of its automata would take more than ten mebibytes.
-/

namespace LayerLint

/-- What the parts of an automaton take that depend on the direction of reading. -/
structure Glob.Reading where
  /-- What every automaton takes. -/
  frame : Nat
  /-- What one character other than a given one takes: more backwards than forwards, because the
  bytes of different characters then share fewer states. -/
  single : Nat
  deriving Repr, DecidableEq

namespace Glob

/-- Reading a text from its beginning. -/
def forwards : Reading := ⟨192, 424⟩

/-- Reading a text from its end. -/
def backwards : Reading := ⟨128, 1000⟩

/-- What one byte that is read takes. -/
def byteSize : Nat := 32

/-- What a repetition takes besides the piece that is repeated. -/
def repeatSize : Nat := 40

/-- What an option takes besides the piece that may be left out. -/
def optionSize : Nat := 72

/-- What a piece takes in an automaton. -/
def Piece.size (reading : Reading) : Piece → Nat
  | directories => reading.single + repeatSize + byteSize + optionSize
  | anything => reading.single + repeatSize
  | segment => reading.single + repeatSize
  | single => reading.single
  | literal c => byteSize * c.utf8Size

/-- What the automaton of a glob takes. -/
def size (reading : Reading) (glob : Glob) : Nat :=
  reading.frame + glob.foldr (fun piece rest => piece.size reading + rest) 0

/-- What an automaton may take. -/
def sizeLimit : Nat := 10 * 1024 * 1024

/-- Whether neither automaton of a glob is too large. -/
def isAccepted (glob : Glob) : Bool :=
  decide (glob.size forwards ≤ sizeLimit) && decide (glob.size backwards ≤ sizeLimit)

/-- The glob that a text spells, unless it is too large. -/
def ofString? (text : String) : Option Glob :=
  (some (ofString text)).filter isAccepted

end Glob

end LayerLint
