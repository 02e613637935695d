import Ecma3.Ast.Node
import Ecma3.Build.Error
import Ecma3.Build.Literal
import Ecma3.Log
import Ecma3.ParseTree.DetachNew

/-!
What the constructions of all nodes share: children, lists of nodes, blocks, and the leaves. The
constructions are written for any computation that can fail and keep a log, against a `build` for the
trees inside; a label is given to `build` for the statement it makes.
-/

namespace Ecma3.Build
open Log

variable {m : Type → Type} [Monad m] [MonadExcept BuildError m]

/-- The child at a place, which must be there. -/
def child (tree : ParseTree) (i : Nat) (part : Part) : m ParseTree :=
  match tree.children[i]? with
  | some t => pure t
  | none => throw (.malformedNode tree.kind part tree.span)

def unsupported {α : Type} (tree : ParseTree) : m α :=
  throw (.unsupportedConstruct tree.kind tree.span)

/-- A literal whose text was read, or an error about its text. -/
def literal (what : LiteralClass) (tree : ParseTree) : Option Node → m Node
  | some node => pure node
  | none => throw (.invalidLiteral what tree.text tree.span)

/-- Names and literals. -/
def leaf (tree : ParseTree) : m Node :=
  match tree.kind with
  | .«this» => pure (.identifier "this" false tree.span)
  | .decimalLiteral => literal .number tree (Literal.decimal? tree.text tree.span)
  | .hexLiteral => literal .number tree (Literal.hex? tree.text tree.span)
  | .stringLiteral => literal .string tree (Literal.string? tree.text tree.span)
  | .regexLiteral => literal .regex tree (Literal.regex? tree.text tree.span)
  | .nullLiteral => pure (.null tree.span)
  | .trueLiteral => pure (.boolean true tree.span)
  | .falseLiteral => pure (.boolean false tree.span)
  | _ => pure (.identifier tree.text false tree.span)

variable (build : ParseTree → Option String → m Node)

def all : List ParseTree → m (List Node)
  | [] => pure []
  | tree :: rest => do
    let node ← build tree none
    return node :: (← all rest)

/-- The first two children, both of which must be there before either is built. -/
def pair (tree : ParseTree) : m (Node × Node) := do
  let first ← child tree 0 .firstOperand
  let second ← child tree 1 .secondOperand
  let first ← build first none
  let second ← build second none
  return (first, second)

/-- The statements of a block; any other statement counts as a block of one. -/
def block (tree : ParseTree) (label : Option String) : m Block := do
  if tree.kind = .block then return ⟨← all build tree.children, label, tree.span⟩
  else return ⟨[← build tree none], label, tree.span⟩

end Ecma3.Build
