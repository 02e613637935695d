/-!
The kinds of parse tree nodes. Their order fixes their codes, which other tools may have stored.
-/

namespace Ecma3

/-- What a parse tree node stands for. Some kinds are only brackets around other nodes: `unit` around
the statements of a source with several of them, `arguments`, `item` and the loop heads `forStep` and
`forIn`. -/
inductive Kind where
  | unit
  | block
  | var
  | expression
  | parenthesized
  | comma
  | object
  | namedValue
  | array
  | item
  | function
  | arguments
  | «return»
  | call
  | new
  | byField
  | byIndex
  | «if»
  | conditional
  | switch
  | «case»
  | «default»
  | «this»
  | identifier
  | «try»
  | «catch»
  | «finally»
  | «throw»
  | «in»
  | instanceOf
  | «while»
  | «do»
  | «for»
  | forStep
  | forIn
  | «break»
  | «continue»
  | labelled
  | «with»
  | debugger
  | decimalLiteral
  | hexLiteral
  | stringLiteral
  | regexLiteral
  | nullLiteral
  | trueLiteral
  | falseLiteral
  | assign
  | addAssign
  | subtractAssign
  | multiplyAssign
  | divideAssign
  | moduloAssign
  | shiftLeftAssign
  | shiftRightAssign
  | shiftRightUnsignedAssign
  | bitAndAssign
  | bitOrAssign
  | bitXorAssign
  | add
  | subtract
  | multiply
  | divide
  | modulo
  | equal
  | notEqual
  | same
  | notSame
  | less
  | greater
  | lessEqual
  | greaterEqual
  | shiftLeft
  | shiftRight
  | shiftRightUnsigned
  | bitAnd
  | bitOr
  | bitXor
  | logicalAnd
  | logicalOr
  | increment
  | decrement
  | postIncrement
  | postDecrement
  | bitNot
  | logicalNot
  | negate
  | plus
  | typeOf
  | void
  | delete
deriving DecidableEq, Repr, Inhabited

namespace Kind

/-- All kinds in the order of their codes. -/
def all : List Kind :=
  [.unit, .block, .var, .expression, .parenthesized, .comma, .object, .namedValue, .array, .item,
   .function, .arguments, .«return», .call, .new, .byField, .byIndex, .«if», .conditional, .switch,
   .«case», .«default», .«this», .identifier, .«try», .«catch», .«finally», .«throw», .«in»,
   .instanceOf, .«while», .«do», .«for», .forStep, .forIn, .«break», .«continue», .labelled,
   .«with», .debugger, .decimalLiteral, .hexLiteral, .stringLiteral, .regexLiteral, .nullLiteral,
   .trueLiteral, .falseLiteral, .assign, .addAssign, .subtractAssign, .multiplyAssign,
   .divideAssign, .moduloAssign, .shiftLeftAssign, .shiftRightAssign, .shiftRightUnsignedAssign,
   .bitAndAssign, .bitOrAssign, .bitXorAssign, .add, .subtract, .multiply, .divide, .modulo,
   .equal, .notEqual, .same, .notSame, .less, .greater, .lessEqual, .greaterEqual, .shiftLeft,
   .shiftRight, .shiftRightUnsigned, .bitAnd, .bitOr, .bitXor, .logicalAnd, .logicalOr, .increment,
   .decrement, .postIncrement, .postDecrement, .bitNot, .logicalNot, .negate, .plus, .typeOf,
   .void, .delete]

def code (k : Kind) : Nat := all.idxOf k

def ofCode? (code : Nat) : Option Kind := all[code]?

/-- The name shown in diagnostics. -/
def name : Kind → String
  | .unit => "NIL"
  | .block => "BLOCK"
  | .var => "VAR"
  | .expression => "EXPR"
  | .parenthesized => "PAREXPR"
  | .comma => "CEXPR"
  | .object => "OBJECT"
  | .namedValue => "NAMEDVALUE"
  | .array => "ARRAY"
  | .item => "ITEM"
  | .function => "FUNCTION"
  | .arguments => "ARGS"
  | .«return» => "RETURN"
  | .call => "CALL"
  | .new => "NEW"
  | .byField => "BYFIELD"
  | .byIndex => "BYINDEX"
  | .«if» => "IF"
  | .conditional => "QUE"
  | .switch => "SWITCH"
  | .«case» => "CASE"
  | .«default» => "DEFAULT"
  | .«this» => "THIS"
  | .identifier => "Identifier"
  | .«try» => "TRY"
  | .«catch» => "CATCH"
  | .«finally» => "FINALLY"
  | .«throw» => "THROW"
  | .«in» => "IN"
  | .instanceOf => "INSTANCEOF"
  | .«while» => "WHILE"
  | .«do» => "DO"
  | .«for» => "FOR"
  | .forStep => "FORSTEP"
  | .forIn => "FORITER"
  | .«break» => "BREAK"
  | .«continue» => "CONTINUE"
  | .labelled => "LABELLED"
  | .«with» => "WITH"
  | .debugger => "DEBUGGER"
  | .decimalLiteral => "DecimalLiteral"
  | .hexLiteral => "HexIntegerLiteral"
  | .stringLiteral => "StringLiteral"
  | .regexLiteral => "RegularExpressionLiteral"
  | .nullLiteral => "NULL"
  | .trueLiteral => "TRUE"
  | .falseLiteral => "FALSE"
  | .assign => "ASSIGN"
  | .addAssign => "ADDASS"
  | .subtractAssign => "SUBASS"
  | .multiplyAssign => "MULASS"
  | .divideAssign => "DIVASS"
  | .moduloAssign => "MODASS"
  | .shiftLeftAssign => "SHLASS"
  | .shiftRightAssign => "SHRASS"
  | .shiftRightUnsignedAssign => "SHUASS"
  | .bitAndAssign => "ANDASS"
  | .bitOrAssign => "ORASS"
  | .bitXorAssign => "XORASS"
  | .add => "ADD"
  | .subtract => "SUB"
  | .multiply => "MUL"
  | .divide => "DIV"
  | .modulo => "MOD"
  | .equal => "EQ"
  | .notEqual => "NEQ"
  | .same => "SAME"
  | .notSame => "NSAME"
  | .less => "LT"
  | .greater => "GT"
  | .lessEqual => "LTE"
  | .greaterEqual => "GTE"
  | .shiftLeft => "SHL"
  | .shiftRight => "SHR"
  | .shiftRightUnsigned => "SHU"
  | .bitAnd => "AND"
  | .bitOr => "OR"
  | .bitXor => "XOR"
  | .logicalAnd => "LAND"
  | .logicalOr => "LOR"
  | .increment => "INC"
  | .decrement => "DEC"
  | .postIncrement => "PINC"
  | .postDecrement => "PDEC"
  | .bitNot => "INV"
  | .logicalNot => "NOT"
  | .negate => "NEG"
  | .plus => "POS"
  | .typeOf => "TYPEOF"
  | .void => "VOID"
  | .delete => "DELETE"

/-- The name under which the kind table lists the kind. -/
def title : Kind → String
  | .unit => "Nil"
  | .block => "Block"
  | .var => "Var"
  | .expression => "Expr"
  | .parenthesized => "ParExpr"
  | .comma => "CExpr"
  | .object => "Object"
  | .namedValue => "NamedValue"
  | .array => "Array"
  | .item => "Item"
  | .function => "Function"
  | .arguments => "Args"
  | .«return» => "Return"
  | .call => "Call"
  | .new => "New"
  | .byField => "ByField"
  | .byIndex => "ByIndex"
  | .«if» => "If"
  | .conditional => "Que"
  | .switch => "Switch"
  | .«case» => "Case"
  | .«default» => "Default"
  | .«this» => "This"
  | .identifier => "Identifier"
  | .«try» => "Try"
  | .«catch» => "Catch"
  | .«finally» => "Finally"
  | .«throw» => "Throw"
  | .«in» => "In"
  | .instanceOf => "InstanceOf"
  | .«while» => "While"
  | .«do» => "Do"
  | .«for» => "For"
  | .forStep => "ForStep"
  | .forIn => "ForIter"
  | .«break» => "Break"
  | .«continue» => "Continue"
  | .labelled => "Labelled"
  | .«with» => "With"
  | .debugger => "Debugger"
  | .decimalLiteral => "DecimalLiteral"
  | .hexLiteral => "HexIntegerLiteral"
  | .stringLiteral => "StringLiteral"
  | .regexLiteral => "RegularExpressionLiteral"
  | .nullLiteral => "Null"
  | .trueLiteral => "True"
  | .falseLiteral => "False"
  | .assign => "Assign"
  | .addAssign => "AddAssign"
  | .subtractAssign => "SubAssign"
  | .multiplyAssign => "MulAssign"
  | .divideAssign => "DivAssign"
  | .moduloAssign => "ModAssign"
  | .shiftLeftAssign => "ShlAssign"
  | .shiftRightAssign => "ShrAssign"
  | .shiftRightUnsignedAssign => "ShuAssign"
  | .bitAndAssign => "AndAssign"
  | .bitOrAssign => "OrAssign"
  | .bitXorAssign => "XorAssign"
  | .add => "Add"
  | .subtract => "Sub"
  | .multiply => "Mul"
  | .divide => "Div"
  | .modulo => "Mod"
  | .equal => "Eq"
  | .notEqual => "Neq"
  | .same => "Same"
  | .notSame => "NotSame"
  | .less => "Lt"
  | .greater => "Gt"
  | .lessEqual => "Lte"
  | .greaterEqual => "Gte"
  | .shiftLeft => "Shl"
  | .shiftRight => "Shr"
  | .shiftRightUnsigned => "Shu"
  | .bitAnd => "And"
  | .bitOr => "Or"
  | .bitXor => "Xor"
  | .logicalAnd => "LogicalAnd"
  | .logicalOr => "LogicalOr"
  | .increment => "Inc"
  | .decrement => "Dec"
  | .postIncrement => "PostInc"
  | .postDecrement => "PostDec"
  | .bitNot => "Inv"
  | .logicalNot => "Not"
  | .negate => "Neg"
  | .plus => "Pos"
  | .typeOf => "TypeOf"
  | .void => "Void"
  | .delete => "Delete"

/-- The kind with this diagnostic name. -/
def ofName? (text : String) : Option Kind := all.find? (·.name == text)

end Kind
end Ecma3
