import Ecma3.Build.Part
import Ecma3.Build.PropertyTable

/-!
Literals with parts, functions, calls and member accesses. A `new` at the base of a chain of accesses
moves out to the first call around them, which gives it its arguments, or around the accesses if no
call follows.
-/

namespace Ecma3.Build
open Log

variable {m : Type → Type} [Monad m] [MonadExcept BuildError m]
variable (build : ParseTree → Option String → m Node)

/-- A comma expression. -/
def sequence (tree : ParseTree) : m Node := do
  return .assignmentBlock (← all build tree.children) false tree.span

/-- Enters the properties of an object one after the other. A repeated name keeps its first place and
takes the last value. -/
def enterAll (table : PropertyTable) : List ParseTree → m PropertyTable
  | [] => pure table
  | entry :: rest => do
    if entry.kind ≠ .namedValue then unsupported entry
    let name := Literal.propertyName (← child entry 0 .propertyName).text
    let value ← build (← child entry 1 .propertyValue) none
    enterAll (table.enter name value) rest

def object (tree : ParseTree) : m Node := do
  let table ← enterAll build .empty tree.children
  return .object table.properties.toList tree.span

/-- The elements of an array. An item without a child is left out. -/
def elements : List ParseTree → m (List (Option Node))
  | [] => pure []
  | item :: rest => do
    let content := if item.kind = .item then item.children[0]? else some item
    let element ← match content with
      | some tree => some <$> build tree none
      | none => pure none
    return element :: (← elements rest)

def array (tree : ParseTree) : m Node := do
  return .array (← elements build tree.children) tree.span

/-- The first of more than two children is the name. -/
def function (tree : ParseTree) : m Node := do
  let named := 2 < tree.children.length
  let first := if named then 1 else 0
  let name ← if named then some <$> child tree 0 .functionName else pure none
  let parameters ← child tree first .parameterList
  let body ← child tree (first + 1) .body
  let body ← block build body none
  return .function (name.map (·.text)) (parameters.children.map (·.text)) body tree.span

/-- A `new` that no access or call moved. -/
def new (tree : ParseTree) : m Node := do
  return .new (← build (← child tree 0 .operand) none) none tree.span

def arguments (tree : ParseTree) : m (List Node) := do
  if tree.kind = .arguments then all build tree.children
  else return [← build tree none]

variable [MonadLog m]

/-- A tree without the `new` at its base, and whether there was one. -/
def detach (tree : ParseTree) : m (ParseTree × Bool) :=
  match tree.detachNew with
  | (tree, none) => pure (tree, false)
  | (tree, some (newSpan, accesses)) => do
    note (.movedNew newSpan accesses)
    return (tree, true)

/-- Arguments are built before what is called. -/
def call (tree : ParseTree) : m Node := do
  let callee ← child tree 0 .callee
  let arguments ← match tree.children[1]? with
    | some list => arguments build list
    | none => pure []
  let (callee, detached) ← detach callee
  let callee ← build callee none
  if detached then return .new callee (some arguments) tree.span
  else return .call callee arguments tree.span

def access (tree : ParseTree) : m Node := do
  let object ← child tree 0 .object
  let member ← child tree 1 .member
  let (object, detached) ← detach object
  let object ← build object none
  let access ←
    if tree.kind = .byField then pure (Node.memberAccess object member.text tree.span)
    else pure (Node.indexAccess object (← build member none) tree.span)
  if detached then return .new access none tree.span
  else return access

end Ecma3.Build
