import LayerLint.Pattern.Search

/-! # Globs

A glob has three wildcards: `*` stands for a run of characters other than slashes, `?` for one such
character, and `**` for any run of characters on one line; `**` with a slash behind it stands for
any number of whole directories. Every other character stands for itself. A glob is a pattern for
whole texts.
-/

namespace LayerLint

/-- One piece of a glob. -/
inductive Glob.Piece where
  /-- Nothing, or a text on one line that ends in a slash. -/
  | directories
  /-- Any text on one line. -/
  | anything
  /-- Any text without slashes. -/
  | segment
  /-- One character other than a slash. -/
  | single
  /-- One character that stands for itself. -/
  | literal (c : Char)
  deriving Repr, DecidableEq

/-- A glob, cut into pieces. -/
abbrev Glob := List Glob.Piece

namespace Glob

/-- Cuts a glob into its pieces, from the left. -/
def ofChars : List Char → Glob
  | '*' :: '*' :: '/' :: rest => .directories :: ofChars rest
  | '*' :: '*' :: rest => .anything :: ofChars rest
  | '*' :: rest => .segment :: ofChars rest
  | '?' :: rest => .single :: ofChars rest
  | c :: rest => .literal c :: ofChars rest
  | [] => []

/-- The glob that a text spells. -/
def ofString (text : String) : Glob :=
  ofChars text.toList

/-- What a piece matches. -/
def Piece.pattern : Piece → Pattern
  | directories => .maybe (.andThen (.long (· != '\n')) (.one (· == '/')))
  | anything => .long (· != '\n')
  | segment => .long (· != '/')
  | single => .one (· != '/')
  | literal c => .one (· == c)

/-- The pattern of a whole glob. -/
def pattern (glob : Glob) : Pattern :=
  .all (glob.map Piece.pattern)

/-- Whether a glob matches the whole of a text. -/
def isMatch (glob : Glob) (text : String) : Bool :=
  glob.pattern.describes text.toList

end Glob

end LayerLint
