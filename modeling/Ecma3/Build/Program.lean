import Ecma3.Build.Expression
import Ecma3.Build.Operator
import Ecma3.Build.Statement

/-!
From parse trees to syntax trees. Each level of nesting takes one from the levels that are left, so the
limit on nesting is also what makes building end.
-/

namespace Ecma3.Build
open Log

/-- What stands behind a label: a statement that can carry it, or something that hands it on. -/
def takesLabel : Kind → Bool
  | .block | .«if» | .switch | .«while» | .«do» | .«for» | .«try» | .«with» => true
  | .expression | .parenthesized | .labelled => true
  | _ => false

variable {m : Type → Type} [Monad m] [MonadExcept BuildError m] [MonadLog m]

/-- The construction for each kind. The other kinds only make sense inside the constructs they are
part of, and a `debugger` statement has no node. -/
def construct (build : ParseTree → Option String → m Node) (tree : ParseTree)
    (label : Option String) : m Node :=
  match tree.kind with
  | .expression | .parenthesized => grouping build tree label
  | .labelled => labelled build tree label
  | .block => .block <$> block build tree label
  | .var => var build tree
  | .comma => sequence build tree
  | .object => object build tree
  | .array => array build tree
  | .function => function build tree
  | .call => call build tree
  | .new => new build tree
  | .byField | .byIndex => access build tree
  | .«if» | .conditional => conditional build tree label
  | .switch => switch build tree label
  | .«try» => tryStatement build tree label
  | .«while» | .«do» => whileLoop build tree label
  | .«for» => forLoop build tree label
  | .«with» => withStatement build tree label
  | .«return» | .«throw» | .«break» | .«continue» => jump build tree
  | .«this» | .identifier | .decimalLiteral | .hexLiteral | .stringLiteral | .regexLiteral
  | .nullLiteral | .trueLiteral | .falseLiteral => leaf tree
  | .assign | .addAssign | .subtractAssign | .multiplyAssign | .divideAssign | .moduloAssign
  | .shiftLeftAssign | .shiftRightAssign | .shiftRightUnsignedAssign | .bitAndAssign | .bitOrAssign
  | .bitXorAssign => assignment build tree
  | .add | .subtract | .multiply | .divide | .modulo | .equal | .notEqual | .less | .greater
  | .lessEqual | .greaterEqual | .shiftLeft | .shiftRight | .shiftRightUnsigned | .bitAnd | .bitOr
  | .bitXor | .logicalAnd | .logicalOr | .same | .notSame | .«in» | .instanceOf => binary build tree
  | .increment | .decrement | .postIncrement | .postDecrement => step build tree
  | .bitNot | .logicalNot | .negate | .plus | .typeOf | .void | .delete => unary build tree
  | .unit | .namedValue | .item | .arguments | .«case» | .«default» | .«catch» | .«finally»
  | .forStep | .forIn | .debugger => unsupported tree

/-- Builds a tree that nothing but a level of nesting keeps from being built. -/
def visit (build : ParseTree → Option String → m Node) (tree : ParseTree)
    (label : Option String) : m Node := do
  note (.visiting tree.kind tree.span)
  if let some l := label then
    if !takesLabel tree.kind then throw (.invalidLabelTarget l tree.kind tree.span)
  construct build tree label

/-- Builds a tree with so many levels of nesting left; `limit` is only for the error. -/
def within (limit : Nat) : Nat → ParseTree → Option String → m Node
  | 0, tree, _ => throw (.nestingTooDeep limit tree.span)
  | levels + 1, tree, label => visit (within limit levels) tree label

/-- Builds one tree, with a label for the statement it makes. -/
def node (limit : Nat) (tree : ParseTree) (label : Option String) : m Node :=
  within limit limit tree label

/-- The nodes of a whole source: one for each statement, and a null for a source without any. -/
def program (limit : Nat) (root : Option ParseTree) : m (List Node) := do
  let nodes ← match root with
    | none => pure [.null ⟨0, 0⟩]
    | some root =>
      if root.kind = .unit then all (node limit) root.children
      else pure [← node limit root none]
  note (.built nodes.length)
  return nodes

end Ecma3.Build
