import Ecma3.Token.Basic
import Ecma3.ParseTree.Kind

/-!
Which tokens are operators, and how tightly they bind.
-/

namespace Ecma3.Grammar

/-- Assignments, simple and compound. -/
def assignmentKind? : Token → Option Kind
  | .punctuator .assign => some .assign
  | .punctuator .plusAssign => some .addAssign
  | .punctuator .minusAssign => some .subtractAssign
  | .punctuator .starAssign => some .multiplyAssign
  | .punctuator .slashAssign => some .divideAssign
  | .punctuator .percentAssign => some .moduloAssign
  | .punctuator .shiftLeftAssign => some .shiftLeftAssign
  | .punctuator .shiftRightAssign => some .shiftRightAssign
  | .punctuator .shiftRightUnsignedAssign => some .shiftRightUnsignedAssign
  | .punctuator .ampAssign => some .bitAndAssign
  | .punctuator .pipeAssign => some .bitOrAssign
  | .punctuator .caretAssign => some .bitXorAssign
  | _ => none

/-- The kind of a binary operator, without regard to whether `in` is allowed. -/
def binaryKind? : Token → Option Kind
  | .punctuator .pipePipe => some .logicalOr
  | .punctuator .ampAmp => some .logicalAnd
  | .punctuator .pipe => some .bitOr
  | .punctuator .caret => some .bitXor
  | .punctuator .amp => some .bitAnd
  | .punctuator .equal => some .equal
  | .punctuator .notEqual => some .notEqual
  | .punctuator .same => some .same
  | .punctuator .notSame => some .notSame
  | .punctuator .less => some .less
  | .punctuator .greater => some .greater
  | .punctuator .lessEqual => some .lessEqual
  | .punctuator .greaterEqual => some .greaterEqual
  | .reserved .instanceof => some .instanceOf
  | .reserved .«in» => some .«in»
  | .punctuator .shiftLeft => some .shiftLeft
  | .punctuator .shiftRight => some .shiftRight
  | .punctuator .shiftRightUnsigned => some .shiftRightUnsigned
  | .punctuator .plus => some .add
  | .punctuator .minus => some .subtract
  | .punctuator .star => some .multiply
  | .punctuator .slash => some .divide
  | .punctuator .percent => some .modulo
  | _ => none

/-- How tightly a binary operator binds; nothing for other kinds. -/
def precedence? : Kind → Option Nat
  | .logicalOr => some 1
  | .logicalAnd => some 2
  | .bitOr => some 3
  | .bitXor => some 4
  | .bitAnd => some 5
  | .equal | .notEqual | .same | .notSame => some 6
  | .less | .greater | .lessEqual | .greaterEqual | .instanceOf | .«in» => some 7
  | .shiftLeft | .shiftRight | .shiftRightUnsigned => some 8
  | .add | .subtract => some 9
  | .multiply | .divide | .modulo => some 10
  | _ => none

/-- The kind and precedence of a binary operator. In the head of a `for` the word `in` is none. -/
def binaryOperator? (allowIn : Bool) (t : Token) : Option (Kind × Nat) := do
  let kind ← binaryKind? t
  let precedence ← precedence? kind
  if kind = .«in» && !allowIn then none else some (kind, precedence)

def unaryKind? : Token → Option Kind
  | .reserved .delete => some .delete
  | .reserved .void => some .void
  | .reserved .typeof => some .typeOf
  | .punctuator .plusPlus => some .increment
  | .punctuator .minusMinus => some .decrement
  | .punctuator .plus => some .plus
  | .punctuator .minus => some .negate
  | .punctuator .tilde => some .bitNot
  | .punctuator .bang => some .logicalNot
  | _ => none

def postfixKind? : Token → Option Kind
  | .punctuator .plusPlus => some .postIncrement
  | .punctuator .minusMinus => some .postDecrement
  | _ => none

/-- Words and literals that are expressions by themselves. -/
def simpleKind? : Token → Option Kind
  | .reserved .«this» => some .«this»
  | .identifier => some .identifier
  | .decimalLiteral => some .decimalLiteral
  | .hexLiteral => some .hexLiteral
  | .stringLiteral => some .stringLiteral
  | .reserved .nullLiteral => some .nullLiteral
  | .reserved .trueLiteral => some .trueLiteral
  | .reserved .falseLiteral => some .falseLiteral
  | _ => none

/-- Names in the wide sense: after a point and before the colon of a property, reserved words are
names too. -/
def isNameLike (t : Token) : Bool := t == .identifier || t.isReserved

end Ecma3.Grammar
