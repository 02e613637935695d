import Ecma3.Ast.Node
import Ecma3.Json.Printer
import Ecma3.Text.Span

/-!
Syntax trees as JSON. A node is an object with the name of its kind, its fields and its place. Blocks,
cases, handlers and properties are objects of their own; they need no kind where they can only stand in
one field.
-/

namespace Ecma3
open Json

namespace Span

def toJson (s : Span) : Json := obj [("start", .ofNat s.start), ("end", .ofNat s.stop)]

end Span

/-- The object of a node. -/
def Json.tagged (kind : String) (fields : List (String × Json)) (span : Span) : Json :=
  obj (("type", str kind) :: fields ++ [("span", span.toJson)])

def Json.optionalText (text : Option String) : Json := .ofOption str text

mutual

def Node.toJson : Node → Json
  | .identifier name isDefinition span =>
    tagged "Identifier" [("name", str name), ("is_definition", bool isDefinition)] span
  | .integer value span => tagged "Integer" [("value", int value.toInt)] span
  | .float value span => tagged "Float" [("value", float value)] span
  | .string value quote span =>
    tagged "String" [("value", str value), ("quote", str quote.toString)] span
  | .boolean value span => tagged "Boolean" [("value", bool value)] span
  | .null span => tagged "Null" [] span
  | .regex pattern flags span =>
    tagged "Regex" [("pattern", str pattern), ("flags", str flags)] span
  | .array elements span => tagged "Array" [("elements", arr (elementJsons elements))] span
  | .object properties span => tagged "Object" [("properties", arr (propertyJsons properties))] span
  | .function name params body span =>
    tagged "Function"
      [("name", optionalText name), ("params", strings params), ("body", obj body.fields)] span
  | .call callee arguments span =>
    tagged "Call" [("callee", callee.toJson), ("arguments", arr (nodeJsons arguments))] span
  | .new callee none span =>
    tagged "New" [("callee", callee.toJson), ("arguments", Json.null)] span
  | .new callee (some arguments) span =>
    tagged "New" [("callee", callee.toJson), ("arguments", arr (nodeJsons arguments))] span
  | .memberAccess object property span =>
    tagged "MemberAccess" [("object", object.toJson), ("property", str property)] span
  | .indexAccess object index span =>
    tagged "IndexAccess" [("object", object.toJson), ("index", index.toJson)] span
  | .assign target value span =>
    tagged "Assign" [("target", target.toJson), ("value", value.toJson)] span
  | .assignmentBlock nodes isDeclaration span =>
    tagged "AssignmentBlock"
      [("nodes", arr (nodeJsons nodes)), ("is_declaration", bool isDeclaration)] span
  | .binary operator left right span =>
    tagged "Binary"
      [("operator", str operator.name), ("left", left.toJson), ("right", right.toJson)] span
  | .unsignedRightShift left right span =>
    tagged "UnsignedRightShift" [("left", left.toJson), ("right", right.toJson)] span
  | .unary operator operand span =>
    tagged "Unary" [("operator", str operator.name), ("operand", operand.toJson)] span
  | .logical operator left right span =>
    tagged "Logical"
      [("operator", str operator.name), ("left", left.toJson), ("right", right.toJson)] span
  | .strictCompare operator left right span =>
    tagged "StrictCompare"
      [("operator", str operator.name), ("left", left.toJson), ("right", right.toJson)] span
  | .instanceOf value constructor span =>
    tagged "InstanceOf" [("value", value.toJson), ("constructor", constructor.toJson)] span
  | .membership property object span =>
    tagged "In" [("property", property.toJson), ("object", object.toJson)] span
  | .typeOf operand span => tagged "TypeOf" [("operand", operand.toJson)] span
  | .void operand span => tagged "Void" [("operand", operand.toJson)] span
  | .delete operand span => tagged "Delete" [("operand", operand.toJson)] span
  | .postfixStep operator target span =>
    tagged "Postfix" [("operator", str operator.name), ("target", target.toJson)] span
  | .«return» value span => tagged "Return" [("value", value.toJson)] span
  | .«if» test consequent none isTernary label span =>
    tagged "If"
      [("test", test.toJson), ("consequent", consequent.toJson), ("alternate", Json.null),
        ("is_ternary", bool isTernary), ("label", optionalText label)] span
  | .«if» test consequent (some alternate) isTernary label span =>
    tagged "If"
      [("test", test.toJson), ("consequent", consequent.toJson), ("alternate", alternate.toJson),
        ("is_ternary", bool isTernary), ("label", optionalText label)] span
  | .switch discriminant cases default label span =>
    tagged "Switch"
      [("discriminant", discriminant.toJson), ("cases", arr (caseJsons cases)),
        ("default", default.toJson), ("label", optionalText label)] span
  | .«while» test body style label span =>
    tagged "While"
      [("test", test.toJson), ("body", body.toJson), ("style", str style.name),
        ("label", optionalText label)] span
  | .forStep init test increment body label span =>
    tagged "ForStep"
      [("init", init.toJson), ("test", test.toJson), ("increment", increment.toJson),
        ("body", body.toJson), ("label", optionalText label)] span
  | .forIn target object body label span =>
    tagged "ForIn"
      [("target", target.toJson), ("object", object.toJson), ("body", body.toJson),
        ("label", optionalText label)] span
  | .«break» label span => tagged "Break" [("label", optionalText label)] span
  | .«continue» label span => tagged "Continue" [("label", optionalText label)] span
  | .«try» body handler cleanup label span =>
    tagged "Try"
      [("body", obj body.fields), ("catch", handlerJson handler), ("finally", cleanupJson cleanup),
        ("label", optionalText label)] span
  | .block content => obj (("type", str "Block") :: content.fields)
  | .«with» object body label span =>
    tagged "With"
      [("object", object.toJson), ("body", body.toJson), ("label", optionalText label)] span
  | .«throw» value span => tagged "Throw" [("value", value.toJson)] span

def Block.fields : Block → List (String × Json)
  | ⟨statements, label, span⟩ =>
    [("statements", arr (nodeJsons statements)), ("label", optionalText label),
      ("span", span.toJson)]

def nodeJsons : List Node → List Json
  | [] => []
  | node :: rest => node.toJson :: nodeJsons rest

def elementJsons : List (Option Node) → List Json
  | [] => []
  | none :: rest => Json.null :: elementJsons rest
  | some node :: rest => node.toJson :: elementJsons rest

def propertyJsons : List Property → List Json
  | [] => []
  | ⟨name, value⟩ :: rest =>
    obj [("name", str name), ("value", value.toJson)] :: propertyJsons rest

def caseJsons : List SwitchCase → List Json
  | [] => []
  | ⟨test, body, span⟩ :: rest =>
    obj [("test", test.toJson), ("body", obj body.fields), ("span", span.toJson)] :: caseJsons rest

def handlerJson : Option Catch → Json
  | none => Json.null
  | some ⟨binding, body, span⟩ =>
    obj [("binding", str binding), ("body", obj body.fields), ("span", span.toJson)]

def cleanupJson : Option Block → Json
  | none => Json.null
  | some body => obj body.fields

end

namespace Node

/-- The nodes of a program as one array. -/
def programJson (nodes : List Node) : Json := arr (nodeJsons nodes)

end Node
end Ecma3
