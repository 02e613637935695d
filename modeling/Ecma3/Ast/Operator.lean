/-!
The operators that the nodes of a syntax tree carry. Each has a symbol, as it is written in programs,
and a name, as it is written in data.
-/

namespace Ecma3

inductive BinaryOperator where
  | add
  | subtract
  | multiply
  | divide
  | modulo
  | equal
  | notEqual
  | less
  | greater
  | lessOrEqual
  | greaterOrEqual
  | leftShift
  | rightShift
  | bitwiseAnd
  | bitwiseOr
  | bitwiseXor
deriving DecidableEq, Repr

namespace BinaryOperator

def all : List BinaryOperator :=
  [add, subtract, multiply, divide, modulo, equal, notEqual, less, greater, lessOrEqual,
    greaterOrEqual, leftShift, rightShift, bitwiseAnd, bitwiseOr, bitwiseXor]

def symbol : BinaryOperator → String
  | add => "+"
  | subtract => "-"
  | multiply => "*"
  | divide => "/"
  | modulo => "%"
  | equal => "=="
  | notEqual => "!="
  | less => "<"
  | greater => ">"
  | lessOrEqual => "<="
  | greaterOrEqual => ">="
  | leftShift => "<<"
  | rightShift => ">>"
  | bitwiseAnd => "&"
  | bitwiseOr => "|"
  | bitwiseXor => "^"

def name : BinaryOperator → String
  | add => "Add"
  | subtract => "Subtract"
  | multiply => "Multiply"
  | divide => "Divide"
  | modulo => "Modulo"
  | equal => "Equal"
  | notEqual => "NotEqual"
  | less => "Less"
  | greater => "Greater"
  | lessOrEqual => "LessOrEqual"
  | greaterOrEqual => "GreaterOrEqual"
  | leftShift => "LeftShift"
  | rightShift => "RightShift"
  | bitwiseAnd => "BitwiseAnd"
  | bitwiseOr => "BitwiseOr"
  | bitwiseXor => "BitwiseXor"

end BinaryOperator

inductive UnaryOperator where
  | bitwiseNot
  | logicalNot
  | negate
  | plus
deriving DecidableEq, Repr

namespace UnaryOperator

def all : List UnaryOperator := [bitwiseNot, logicalNot, negate, plus]

def symbol : UnaryOperator → String
  | bitwiseNot => "~"
  | logicalNot => "!"
  | negate => "-"
  | plus => "+"

def name : UnaryOperator → String
  | bitwiseNot => "BitwiseNot"
  | logicalNot => "Not"
  | negate => "Negate"
  | plus => "Plus"

end UnaryOperator

inductive LogicalOperator where
  | and
  | or
deriving DecidableEq, Repr

namespace LogicalOperator

def all : List LogicalOperator := [.and, .or]

def symbol : LogicalOperator → String
  | .and => "&&"
  | .or => "||"

def name : LogicalOperator → String
  | .and => "And"
  | .or => "Or"

end LogicalOperator

/-- Comparisons that convert neither operand. -/
inductive StrictOperator where
  | same
  | notSame
deriving DecidableEq, Repr

namespace StrictOperator

def all : List StrictOperator := [same, notSame]

def symbol : StrictOperator → String
  | same => "==="
  | notSame => "!=="

def name : StrictOperator → String
  | same => "Same"
  | notSame => "NotSame"

end StrictOperator

/-- Operators that follow the name or member they change. -/
inductive PostfixOperator where
  | increment
  | decrement
deriving DecidableEq, Repr

namespace PostfixOperator

def all : List PostfixOperator := [increment, decrement]

def symbol : PostfixOperator → String
  | increment => "++"
  | decrement => "--"

def name : PostfixOperator → String
  | increment => "Increment"
  | decrement => "Decrement"

end PostfixOperator

/-- Whether a loop tests before its body or after it. -/
inductive WhileStyle where
  | preTest
  | postTest
deriving DecidableEq, Repr

def WhileStyle.name : WhileStyle → String
  | preTest => "PreTest"
  | postTest => "PostTest"

end Ecma3
