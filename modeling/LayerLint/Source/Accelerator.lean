import LayerLint.Source.Declaration

/-! # The syntax accelerator

Declarations may be read with the help of a syntax tree. The grammars for it are loaded on first
use, and what came of the attempt is remembered until the handle is reset. With and without the
accelerator a source text has the same declarations, so the handle's state never shows in them.
-/

namespace LayerLint.Source

/-- What is known about the grammars. -/
inductive Accelerator where
  /-- Loading has not been tried. -/
  | uninitialized
  | ready
  /-- Loading is switched off. -/
  | disabled
  deriving Repr, DecidableEq

namespace Accelerator

/-- The state as it is shown. -/
def description : Accelerator → String
  | uninitialized => "uninitialized"
  | ready => "ready"
  | disabled => "unavailable: disabled"

/-- The handle after an attempt to use it: the first one loads the grammars. -/
def load : Accelerator → Accelerator
  | disabled => disabled
  | _ => ready

/-- Whether the grammars are loaded. -/
def isReady (handle : Accelerator) : Bool :=
  handle == ready

/-- The handle with any earlier attempt forgotten. -/
def reset (_ : Accelerator) : Accelerator :=
  uninitialized

/-- The declarations of a source text, and the handle after reading them. -/
def declarations (handle : Accelerator) (source : String) : List Declaration × Accelerator :=
  (Declaration.allIn source, handle.load)

end Accelerator

end LayerLint.Source
