import LayerLint.Path.Basic

/-! # The normal form of a path

Dots are dropped and each pair of dots takes back the name before it. Above the root there is
nothing, so pairs of dots at the root vanish; in a relative path those that have nothing to take
back stay at the front.
-/

namespace LayerLint.Path

/-- Puts one more component on a stack of normal components, the last one first. -/
def fold (stack : List Component) : Component → List Component
  | .here => stack
  | .up =>
      match stack with
      | .name _ :: below => below
      | .root :: _ => stack
      | _ => .up :: stack
  | component => component :: stack

/-- The components of the normal form of a path. -/
def normalComponents (path : Path) : List Component :=
  (path.components.foldl fold []).reverse

/-- The normal form of a path. -/
def normalize (path : Path) : Path :=
  ofComponents path.normalComponents

/-- The length of the longest common beginning of two lists of components. -/
def commonLength : List Component → List Component → Nat
  | a :: first, b :: second => if a = b then commonLength first second + 1 else 0
  | _, _ => 0

/-- The place of `path` as seen from `root`, with slashes between the steps. Both are taken in
normal form; a path outside the root is reached by climbing with pairs of dots. -/
def relativeTo (root path : Path) : String :=
  let base := root.normalComponents
  let place := path.normalComponents
  if base.isPrefixOf place then
    -- an empty root lies above absolute paths too, so that their slash has to be left out here
    Text.joinWith "/" (((place.drop base.length).filter fun component =>
      component != .root && component != .here).map Component.text)
  else
    let common := commonLength base place
    Text.joinWith "/" (List.replicate (base.length - common) ".." ++
      (place.drop common).map Component.text)

end LayerLint.Path
