import Ecma3.Ast.Operator
import Ecma3.Build.Part

/-!
Operators. Compound assignments and the steps before an operand are written out: `t += v` becomes
`t = t + v`, and `++t` becomes `t = t + 1`.
-/

namespace Ecma3.Build

/-- The operator of a kind, which for an assignment or a step is the one that it applies. -/
def binaryOperator? : Kind → Option BinaryOperator
  | .add | .addAssign | .increment => some .add
  | .subtract | .subtractAssign | .decrement => some .subtract
  | .multiply | .multiplyAssign => some .multiply
  | .divide | .divideAssign => some .divide
  | .modulo | .moduloAssign => some .modulo
  | .equal => some .equal
  | .notEqual => some .notEqual
  | .less => some .less
  | .greater => some .greater
  | .lessEqual => some .lessOrEqual
  | .greaterEqual => some .greaterOrEqual
  | .shiftLeft | .shiftLeftAssign => some .leftShift
  | .shiftRight | .shiftRightAssign => some .rightShift
  | .bitAnd | .bitAndAssign => some .bitwiseAnd
  | .bitOr | .bitOrAssign => some .bitwiseOr
  | .bitXor | .bitXorAssign => some .bitwiseXor
  | _ => none

variable {m : Type → Type} [Monad m] [MonadExcept BuildError m]
variable (build : ParseTree → Option String → m Node)

/-- The value that an assignment gives to its target. -/
def assignedValue (tree : ParseTree) (target value : Node) : m Node :=
  match tree.kind with
  | .assign => pure value
  | .shiftRightUnsignedAssign => pure (.unsignedRightShift target value tree.span)
  | kind =>
    match binaryOperator? kind with
    | some operator => pure (.binary operator target value tree.span)
    | none => unsupported tree

def assignment (tree : ParseTree) : m Node := do
  let (target, value) ← pair build tree
  return .assign target (← assignedValue tree target value) tree.span

def binary (tree : ParseTree) : m Node := do
  let (left, right) ← pair build tree
  match tree.kind with
  | .shiftRightUnsigned => return .unsignedRightShift left right tree.span
  | .logicalAnd => return .logical .and left right tree.span
  | .logicalOr => return .logical .or left right tree.span
  | .same => return .strictCompare .same left right tree.span
  | .notSame => return .strictCompare .notSame left right tree.span
  | .«in» => return .membership left right tree.span
  | .instanceOf => return .instanceOf left right tree.span
  | kind =>
    match binaryOperator? kind with
    | some operator => return .binary operator left right tree.span
    | none => unsupported tree

/-- `++` and `--` on either side of their operand. -/
def step (tree : ParseTree) : m Node := do
  let target ← build (← child tree 0 .operand) none
  match tree.kind with
  | .postIncrement => return .postfixStep .increment target tree.span
  | .postDecrement => return .postfixStep .decrement target tree.span
  | kind =>
    let operator := if kind = .increment then BinaryOperator.add else .subtract
    return .assign target (.binary operator target (.integer 1 tree.span) tree.span) tree.span

def unary (tree : ParseTree) : m Node := do
  let operand ← build (← child tree 0 .operand) none
  match tree.kind with
  | .typeOf => return .typeOf operand tree.span
  | .void => return .void operand tree.span
  | .delete => return .delete operand tree.span
  | .bitNot => return .unary .bitwiseNot operand tree.span
  | .logicalNot => return .unary .logicalNot operand tree.span
  | .negate => return .unary .negate operand tree.span
  | _ => return .unary .plus operand tree.span

end Ecma3.Build
