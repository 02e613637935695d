import Ecma3.Ast.Node
import Ecma3.Decimal.Layout

/-!
Syntax trees as S-expressions: a form for each construct, headed by its symbol or keyword, with the
parts in order. A label is attached to the head. Array elements that are left out and functions without
a name show as `_`.
-/

namespace Ecma3

inductive Sexp where
  | atom (text : String)
  | list (items : List Sexp)

namespace Sexp

mutual

def render : Sexp → String
  | atom text => text
  | list items => "(" ++ " ".intercalate (renderAll items) ++ ")"

def renderAll : List Sexp → List String
  | [] => []
  | s :: rest => s.render :: renderAll rest

end

/-- A list with a head. -/
def form (head : String) (parts : List Sexp) : Sexp := list (atom head :: parts)

/-- A list whose head may carry a label. -/
def labelled (head : String) (label : Option String) (parts : List Sexp) : Sexp :=
  match label with
  | none => form head parts
  | some l => form (head ++ "@" ++ l) parts

def ofOption : Option String → Sexp
  | some text => atom text
  | none => atom "_"

/-- Floats are written out from 0.0001 up to sixteen digits before the point, and have an exponent
elsewhere. -/
def floatLayout : Decimal.Layout where
  leadingZeros := 3
  wholeDigits := 16
  plusSign := false
  tie := .up
  infinity := "inf"

end Sexp

open Sexp

mutual

def Node.toSexp : Node → Sexp
  | .identifier name isDefinition _ => if isDefinition then form "def" [atom name] else atom name
  | .integer value _ => atom (toString value.toInt)
  | .float value _ => atom (floatLayout.render value)
  | .string value quote _ => atom (quote.toString ++ value ++ quote.toString)
  | .boolean value _ => atom (if value then "true" else "false")
  | .null _ => atom "null"
  | .regex pattern flags _ => atom ("/" ++ pattern ++ "/" ++ flags)
  | .array elements _ => form "array" (elementSexps elements)
  | .object properties _ => form "object" (propertySexps properties)
  | .function name params body _ =>
    form "function" [ofOption name, list (params.map atom), body.toSexp]
  | .call callee arguments _ => form "call" (callee.toSexp :: nodeSexps arguments)
  | .new callee none _ => form "new" [callee.toSexp]
  | .new callee (some arguments) _ => form "new" [callee.toSexp, list (nodeSexps arguments)]
  | .memberAccess object property _ => form "." [object.toSexp, atom property]
  | .indexAccess object index _ => form "[]" [object.toSexp, index.toSexp]
  | .assign target value _ => form "=" [target.toSexp, value.toSexp]
  | .assignmentBlock nodes isDeclaration _ =>
    form (if isDeclaration then "decl" else "seq") (nodeSexps nodes)
  | .binary operator left right _ => form operator.symbol [left.toSexp, right.toSexp]
  | .unsignedRightShift left right _ => form ">>>" [left.toSexp, right.toSexp]
  | .unary operator operand _ => form operator.symbol [operand.toSexp]
  | .logical operator left right _ => form operator.symbol [left.toSexp, right.toSexp]
  | .strictCompare operator left right _ => form operator.symbol [left.toSexp, right.toSexp]
  | .instanceOf value constructor _ => form "instanceof" [value.toSexp, constructor.toSexp]
  | .membership property object _ => form "in" [property.toSexp, object.toSexp]
  | .typeOf operand _ => form "typeof" [operand.toSexp]
  | .void operand _ => form "void" [operand.toSexp]
  | .delete operand _ => form "delete" [operand.toSexp]
  | .postfixStep operator target _ => form ("post" ++ operator.symbol) [target.toSexp]
  | .«return» value _ => form "return" [value.toSexp]
  | .«if» test consequent none isTernary label _ =>
    labelled (if isTernary then "?" else "if") label [test.toSexp, consequent.toSexp]
  | .«if» test consequent (some alternate) isTernary label _ =>
    labelled (if isTernary then "?" else "if") label
      [test.toSexp, consequent.toSexp, alternate.toSexp]
  | .switch discriminant cases default label _ =>
    labelled "switch" label
      (discriminant.toSexp :: caseSexps cases ++ [form "default" [default.toSexp]])
  | .«while» test body style label _ =>
    labelled (match style with | .preTest => "while" | .postTest => "do-while") label
      [test.toSexp, body.toSexp]
  | .forStep init test increment body label _ =>
    labelled "for" label [init.toSexp, test.toSexp, increment.toSexp, body.toSexp]
  | .forIn target object body label _ =>
    labelled "for-in" label [target.toSexp, object.toSexp, body.toSexp]
  | .«break» label _ => form "break" (label.toList.map atom)
  | .«continue» label _ => form "continue" (label.toList.map atom)
  | .«try» body handler cleanup label _ =>
    labelled "try" label (body.toSexp :: handlerSexps handler ++ cleanupSexps cleanup)
  | .block content => content.toSexp
  | .«with» object body label _ => labelled "with" label [object.toSexp, body.toSexp]
  | .«throw» value _ => form "throw" [value.toSexp]

def Block.toSexp : Block → Sexp
  | ⟨statements, label, _⟩ => labelled "block" label (nodeSexps statements)

def nodeSexps : List Node → List Sexp
  | [] => []
  | node :: rest => node.toSexp :: nodeSexps rest

def elementSexps : List (Option Node) → List Sexp
  | [] => []
  | none :: rest => atom "_" :: elementSexps rest
  | some node :: rest => node.toSexp :: elementSexps rest

def propertySexps : List Property → List Sexp
  | [] => []
  | ⟨name, value⟩ :: rest => list [atom name, value.toSexp] :: propertySexps rest

def caseSexps : List SwitchCase → List Sexp
  | [] => []
  | ⟨test, body, _⟩ :: rest => form "case" [test.toSexp, body.toSexp] :: caseSexps rest

def handlerSexps : Option Catch → List Sexp
  | none => []
  | some ⟨binding, body, _⟩ => [form "catch" [atom binding, body.toSexp]]

def cleanupSexps : Option Block → List Sexp
  | none => []
  | some body => [form "finally" [body.toSexp]]

end

namespace Node

def sexp (n : Node) : String := n.toSexp.render

/-- The nodes of a program on one line. -/
def sexpProgram (nodes : List Node) : String := " ".intercalate (nodes.map sexp)

end Node
end Ecma3
