import LayerLint.Glob.Set
import LayerLint.Source.Declaration
import LayerLint.Source.Reference

/-! # Calls of router hooks

Hooks are functions whose names begin with `use` and go on like a name of their own. Those that are
imported from a router module, and those reached through a namespace of such a module, are router
hooks; their calls are found in the masked text and listed by offset.
-/

namespace LayerLint.Source

/-- A call of a router hook. -/
structure HookCall where
  /-- The offset of the hook's name. -/
  offset : Nat
  name : String
  deriving Repr, DecidableEq

/-- The names that the imports from router modules bind. -/
structure RouterBindings where
  /-- Hooks bound by name, in the order of their imports. -/
  hooks : List String
  /-- Names bound to whole modules. -/
  namespaces : List String
  deriving Repr, DecidableEq

namespace RouterBindings

open Pattern

/-- Whether a character may stand inside an identifier. -/
def isNameChar (c : Char) : Bool :=
  c.isAlphanum || c == '_' || c == '$'

/-- An identifier of ASCII characters. -/
def identifier : Pattern :=
  andThen (one isNameStart) (long isNameChar)

/-- The form of hook names. -/
def hookName : Pattern :=
  all [word "use", one fun c => c.isUpper || c.isDigit || c == '_' || c == '$', long isNameChar]

/-- Whether a name has the form of a hook's name. -/
def isHookName (name : String) : Bool :=
  hookName.describes name.toList

/-- An import clause; what it binds and its specifier are remembered. -/
def importClause : Pattern :=
  all [boundary, word "import", someBlanks, Reference.typeWord,
    named "bindings" (short Reference.isClauseChar), blanks, boundary, word "from", blanks,
    Reference.literal]

/-- The binding of a whole module. -/
def namespaceBinding : Pattern :=
  all [word "*", blanks, word "as", someBlanks, named "name" identifier]

/-- A list of bindings in braces. -/
def bindingBlock : Pattern :=
  all [one (· == '\x7b'), named "entries" (long (· != '\x7d')), one (· == '\x7d')]

/-- One binding in braces: a name, which another name may replace. -/
def bindingEntry : Pattern :=
  all [maybe (andThen (word "type") someBlanks), named "name" identifier,
    maybe (all [someBlanks, word "as", someBlanks, named "alias" identifier])]

/-- The bindings without any names. -/
def empty : RouterBindings := ⟨[], []⟩

/-- Whether no name is bound. -/
def isEmpty (bindings : RouterBindings) : Bool :=
  bindings.hooks.isEmpty && bindings.namespaces.isEmpty

/-- Adds a name that has the form of a hook's name and is not bound yet. -/
def addHook (bindings : RouterBindings) (name : String) : RouterBindings :=
  if isHookName name && !bindings.hooks.contains name then
    { bindings with hooks := bindings.hooks ++ [name] }
  else bindings

/-- The items of a list with commas, without the blanks around them. -/
def items (text : List Char) : List (List Char) :=
  (text.splitOnP (· == ',')).map Text.trimChars

/-- The name that an entry in braces binds. -/
def boundName? (entry : List Char) : Option String :=
  (bindingEntry.whole? entry).bind fun found =>
    ((found.get? "alias").or (found.get? "name")).map Text.Span.text

/-- The names that the entries in braces bind. -/
def blockNames (clause : List Char) : List String :=
  match bindingBlock.find? clause with
  | none => []
  | some block => (items (block.text "entries").toList).filterMap boundName?

/-- The names that stand in a clause outside braces and namespaces. -/
def plainNames (clause : List Char) : List String :=
  -- the word `type` is left over where it stands before a block
  (items (bindingBlock.blankOut (namespaceBinding.blankOut clause))).filterMap fun item =>
    if item != "type".toList && identifier.describes item then some (String.ofList item) else none

/-- Adds what the bindings of an import clause bind. -/
def addClause (bindings : RouterBindings) (clause : List Char) : RouterBindings :=
  let spaces := (namespaceBinding.findAll clause).map (·.text "name")
  (blockNames clause ++ plainNames clause).foldl addHook
    { bindings with namespaces := bindings.namespaces ++ spaces }

/-- The specifier of an import clause, read from the source and without blanks around it. -/
def specifierOf (source : List Char) (found : Match) : String :=
  match found.get? "specifier" with
  | none => ""
  | some span =>
      String.ofList <| Text.trimChars <|
        (Text.slice? source span.start.offset span.stop.offset).getD []

/-- The names that a source text binds by imports from router modules. -/
def collect (source masked : List Char) (routers : GlobSet) : RouterBindings :=
  (importClause.findAll masked).foldl (fun bindings found =>
    if routers.isMatch (specifierOf source found) then
      bindings.addClause (found.text "bindings").toList
    else bindings) empty

end RouterBindings

namespace HookCall

open Pattern RouterBindings

/-- The opening parenthesis of a call, which a question mark and a dot may precede. -/
def opening : Pattern :=
  all [blanks, maybe (andThen (word "?.") blanks), word "("]

/-- A call of a name. -/
def direct : Pattern :=
  all [boundary, named "hook" identifier, opening]

/-- A call of a member of a name. -/
def member : Pattern :=
  all [boundary, named "space" identifier, blanks, word ".", blanks, named "hook" identifier,
    opening]

/-- The call at the name that a match remembers. -/
def ofMatch? (found : Match) : Option HookCall :=
  (found.get? "hook").map fun span => ⟨span.start.offset, span.text⟩

/-- Whether a match of `direct` calls a bound hook: a name behind a dot or a dollar sign is not the
imported one. -/
def isDirectCall (bindings : RouterBindings) (found : Match) : Bool :=
  bindings.hooks.contains (found.text "hook") &&
    !((found.get? "hook").any fun span => span.start.before.any isMemberMark)

/-- Whether a match of `member` calls a hook of a bound namespace. -/
def isMemberCall (bindings : RouterBindings) (found : Match) : Bool :=
  bindings.namespaces.contains (found.text "space") && isHookName (found.text "hook")

/-- Puts a call at its place in a list by offset, in place of another at the same offset. -/
def place (call : HookCall) : List HookCall → List HookCall
  | [] => [call]
  | next :: rest =>
      if call.offset < next.offset then call :: next :: rest
      else if call.offset = next.offset then call :: rest
      else next :: place call rest

/-- The calls of router hooks in a source text, by offset. -/
def allIn (source : String) (routers : GlobSet) : List HookCall :=
  let chars := source.toList
  let masked := maskChars chars
  let bindings := collect chars masked routers
  if bindings.isEmpty then []
  else
    let calls :=
      ((direct.findAll masked).filter (isDirectCall bindings) ++
        (member.findAll masked).filter (isMemberCall bindings)).filterMap ofMatch?
    calls.foldl (fun listed call => call.place listed) []

end HookCall

end LayerLint.Source
