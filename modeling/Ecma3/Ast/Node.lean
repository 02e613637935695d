import Ecma3.Ast.Operator
import Ecma3.Decimal.Binary64
import Ecma3.Text.Span

/-!
Syntax trees. Every node has the place of the construct it stands for.
-/

namespace Ecma3

mutual

inductive Node where
  /-- A use of a name, or the occurrence that declares it. -/
  | identifier (name : String) (isDefinition : Bool) (span : Span)
  | integer (value : Int32) (span : Span)
  | float (value : Binary64) (span : Span)
  /-- The text between the quotes, with its escapes as they were written. -/
  | string (value : String) (quote : Char) (span : Span)
  | boolean (value : Bool) (span : Span)
  | null (span : Span)
  | regex (pattern flags : String) (span : Span)
  /-- Elements that are left out are `none`. -/
  | array (elements : List (Option Node)) (span : Span)
  | object (properties : List Property) (span : Span)
  | function (name : Option String) (params : List String) (body : Block) (span : Span)
  | call (callee : Node) (arguments : List Node) (span : Span)
  /-- Without parentheses there are no arguments, not even an empty list of them. -/
  | new (callee : Node) (arguments : Option (List Node)) (span : Span)
  | memberAccess (object : Node) (property : String) (span : Span)
  | indexAccess (object index : Node) (span : Span)
  | assign (target value : Node) (span : Span)
  /-- Several declarators of one `var`, or the operands of a comma expression. -/
  | assignmentBlock (nodes : List Node) (isDeclaration : Bool) (span : Span)
  | binary (operator : BinaryOperator) (left right : Node) (span : Span)
  | unsignedRightShift (left right : Node) (span : Span)
  | unary (operator : UnaryOperator) (operand : Node) (span : Span)
  | logical (operator : LogicalOperator) (left right : Node) (span : Span)
  | strictCompare (operator : StrictOperator) (left right : Node) (span : Span)
  | instanceOf (value constructor : Node) (span : Span)
  | membership (property object : Node) (span : Span)
  | typeOf (operand : Node) (span : Span)
  | void (operand : Node) (span : Span)
  | delete (operand : Node) (span : Span)
  | postfixStep (operator : PostfixOperator) (target : Node) (span : Span)
  /-- Without a value it returns a null that has the place of the statement. -/
  | «return» (value : Node) (span : Span)
  | «if» (test consequent : Node) (alternate : Option Node) (isTernary : Bool)
      (label : Option String) (span : Span)
  /-- The default is a block, or a null if there is no default clause. -/
  | switch (discriminant : Node) (cases : List SwitchCase) (default : Node)
      (label : Option String) (span : Span)
  | «while» (test body : Node) (style : WhileStyle) (label : Option String) (span : Span)
  | forStep (init test increment body : Node) (label : Option String) (span : Span)
  | forIn (target object body : Node) (label : Option String) (span : Span)
  | «break» (label : Option String) (span : Span)
  | «continue» (label : Option String) (span : Span)
  | «try» (body : Block) (handler : Option Catch) (cleanup : Option Block)
      (label : Option String) (span : Span)
  | block (content : Block)
  | «with» (object body : Node) (label : Option String) (span : Span)
  | «throw» (value : Node) (span : Span)

/-- Statements between braces, or the one statement that stands for them. -/
structure Block where
  statements : List Node
  label : Option String
  span : Span

structure SwitchCase where
  test : Node
  body : Block
  span : Span

/-- The handler of a `try`, with the name it binds the exception to. -/
structure Catch where
  binding : String
  body : Block
  span : Span

structure Property where
  name : String
  value : Node

end

namespace Property

/-- The value under a name. -/
def get? (properties : List Property) (name : String) : Option Node :=
  (properties.find? (·.name == name)).map (·.value)

end Property

namespace Node

/-- The name of the kind of construct. -/
def kindName : Node → String
  | identifier .. => "Identifier"
  | integer .. => "Integer"
  | float .. => "Float"
  | string .. => "String"
  | boolean .. => "Boolean"
  | null .. => "Null"
  | regex .. => "Regex"
  | array .. => "Array"
  | object .. => "Object"
  | function .. => "Function"
  | call .. => "Call"
  | new .. => "New"
  | memberAccess .. => "MemberAccess"
  | indexAccess .. => "IndexAccess"
  | assign .. => "Assign"
  | assignmentBlock .. => "AssignmentBlock"
  | binary .. => "Binary"
  | unsignedRightShift .. => "UnsignedRightShift"
  | unary .. => "Unary"
  | logical .. => "Logical"
  | strictCompare .. => "StrictCompare"
  | instanceOf .. => "InstanceOf"
  | membership .. => "In"
  | typeOf .. => "TypeOf"
  | void .. => "Void"
  | delete .. => "Delete"
  | postfixStep .. => "Postfix"
  | «return» .. => "Return"
  | «if» .. => "If"
  | switch .. => "Switch"
  | «while» .. => "While"
  | forStep .. => "ForStep"
  | forIn .. => "ForIn"
  | «break» .. => "Break"
  | «continue» .. => "Continue"
  | «try» .. => "Try"
  | block .. => "Block"
  | «with» .. => "With"
  | «throw» .. => "Throw"

def span : Node → Span
  | identifier _ _ span | integer _ span | float _ span | string _ _ span | boolean _ span
  | null span | regex _ _ span | array _ span | object _ span | function _ _ _ span
  | call _ _ span | new _ _ span | memberAccess _ _ span | indexAccess _ _ span | assign _ _ span
  | assignmentBlock _ _ span | binary _ _ _ span | unsignedRightShift _ _ span | unary _ _ span
  | logical _ _ _ span | strictCompare _ _ _ span | instanceOf _ _ span | membership _ _ span
  | typeOf _ span | void _ span | delete _ span | postfixStep _ _ span | «return» _ span
  | «if» _ _ _ _ _ span | switch _ _ _ _ span | «while» _ _ _ _ span | forStep _ _ _ _ _ span
  | forIn _ _ _ _ span | «break» _ span | «continue» _ span | «try» _ _ _ _ span
  | «with» _ _ _ span | «throw» _ span => span
  | block content => content.span

/-- The label of a statement; expressions and jumps have none. -/
def label : Node → Option String
  | «if» _ _ _ _ label _ | switch _ _ _ label _ | «while» _ _ _ label _ | forStep _ _ _ _ label _
  | forIn _ _ _ label _ | «try» _ _ _ label _ | «with» _ _ label _ => label
  | block content => content.label
  | _ => none

def isNull : Node → Bool
  | null _ => true
  | _ => false

/-- Whether a `switch` has a default clause. -/
def hasDefault : Node → Bool
  | switch _ _ default _ _ => !default.isNull
  | _ => false

/-- The name of an identifier, and whether it is declared here. -/
def identifier? : Node → Option (String × Bool)
  | identifier name isDefinition _ => some (name, isDefinition)
  | _ => none

end Node
end Ecma3
