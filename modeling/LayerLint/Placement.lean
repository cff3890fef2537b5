import LayerLint.FileName
import LayerLint.Layer
import LayerLint.Path.Normal

/-! # Where a path sits among the layers

The place of a path is read off its root-relative segments alone. A segment that names a layer and
the first dot-separated token of the segment after it form a *scope*; the scopes of a path, each
qualified by those before it, say which modules the path is nested in. The innermost layer and the
segment after it are the module that the path belongs to.
-/

namespace LayerLint

/-- One `layer/module` pair along a path. -/
structure Scope where
  layer : String
  /-- The pairs up to and including this one, joined by slashes. -/
  key : String
  deriving Repr, DecidableEq

namespace Scope

/-- The layer and module pairs along a list of segments. -/
def pairs (layers : List String) : List String → List (String × String)
  | layer :: next :: rest =>
      match layers.contains layer, FileName.moduleName? next with
      | true, some module => (layer, module) :: pairs layers (next :: rest)
      | _, _ => pairs layers (next :: rest)
  | _ => []

/-- A pair as part of a key. -/
def pairText (pair : String × String) : String :=
  pair.1 ++ "/" ++ pair.2

/-- The scopes of a list of pairs that stand behind the key `outer`. -/
def nest (outer : String) : List (String × String) → List Scope
  | [] => []
  | pair :: rest =>
      let key := if outer.isEmpty then pairText pair else outer ++ "/" ++ pairText pair
      ⟨pair.1, key⟩ :: nest key rest

/-- The scopes along a list of segments, from the outside in. -/
def along (layers segments : List String) : List Scope :=
  nest "" (pairs layers segments)

end Scope

/-- The identity under which an importing file is counted. -/
inductive Consumer where
  /-- A module of the container layer. -/
  | container (key : String)
  /-- A module of the page layer. -/
  | page (key : String)
  /-- The importing module itself. -/
  | module (key : String)
  deriving Repr, DecidableEq

namespace Consumer

/-- The scoped key of a consumer. -/
def key : Consumer → String
  | container key => key
  | page key => key
  | module key => key

/-- Containers are listed before pages, and pages before other modules. -/
def rank : Consumer → Nat
  | container _ => 0
  | page _ => 1
  | module _ => 2

/-- Whether a consumer comes strictly before another in listings: by kind, then by key. -/
def before (first second : Consumer) : Bool :=
  decide (first.rank < second.rank) ||
    (first.rank == second.rank && decide (first.key < second.key))

/-- Whether a scoped key is this consumer's own or nested inside it. -/
def contains (consumer : Consumer) (scopedKey : String) : Bool :=
  scopedKey == consumer.key ||
    match Text.afterStart? consumer.key scopedKey with
    | some rest => Text.beginsWith "/" rest
    | none => false

end Consumer

/-- Where a path sits among the layers. -/
structure Placement where
  path : Path
  /-- The path as seen from the root. -/
  relativePath : String
  /-- The innermost layer. -/
  layer : String
  /-- The rank of the innermost layer, if it has one. -/
  rank : Option Int
  /-- Whether the innermost layer is the only one on the path. -/
  isGlobal : Bool
  /-- The module's name, if the segment after the innermost layer has one. -/
  moduleName : Option String
  /-- The module's name behind its layer. -/
  moduleKey : Option String
  /-- The module's key behind those of all scopes around it. -/
  scopedKey : Option String
  /-- The scopes of the path, from the outside in. -/
  scopes : List Scope
  deriving Repr, DecidableEq

namespace Placement

/-- The place of a root-relative path among the layers, if one of its segments names a layer. -/
def ofRelative? (path : Path) (relative : String) (layers : List String) (ranks : RankTable) :
    Option Placement := do
  let segments := Path.segments relative
  let stop ← Layer.innermostEnd? layers segments
  let layer ← segments[stop - 1]?
  let moduleName := segments[stop]?.bind FileName.moduleName?
  let scopes := Scope.along layers segments
  return {
    path
    relativePath := relative
    layer
    rank := Layer.rank? ranks layer
    isGlobal := !(segments.take (stop - 1)).any layers.contains
    moduleName
    moduleKey := moduleName.map fun name => Scope.pairText (layer, name)
    scopedKey := if moduleName.isSome then scopes.getLast?.map Scope.key else none
    scopes }

/-- The place of a path among the layers below `root`. -/
def ofPath? (path root : Path) (layers : List String) (ranks : RankTable) : Option Placement :=
  ofRelative? path (root.relativeTo path) layers ranks

/-- The key of the innermost scope of a layer. -/
def scopeIn? (placement : Placement) (layer : String) : Option String :=
  (placement.scopes.reverse.find? (·.layer == layer)).map Scope.key

/-- The innermost container module around the path, itself included. -/
def containerScope? (placement : Placement) : Option String :=
  placement.scopeIn? Layer.containers

/-- The innermost page module around the path, itself included. -/
def pageScope? (placement : Placement) : Option String :=
  placement.scopeIn? Layer.pages

/-- The consumer that a file at this place counts as: its container, else its page, else its own
module. -/
def consumer? (placement : Placement) : Option Consumer :=
  match placement.containerScope?, placement.pageScope? with
  | some key, _ => some (.container key)
  | none, some key => some (.page key)
  | none, none => placement.scopedKey.map .module

end Placement

end LayerLint
