import Ecma3.Ast.Node

/-! The names and values in a syntax tree. -/
namespace Ecma3

mutual

/-- The nodes for names and values that the node consists of, with their places. -/
@[simp] def Node.leaves : Node → List Node
  | .identifier name isDefinition span => [.identifier name isDefinition span]
  | .integer value span => [.integer value span]
  | .float value span => [.float value span]
  | .string value quote span => [.string value quote span]
  | .boolean value span => [.boolean value span]
  | .null span => [.null span]
  | .regex pattern flags span => [.regex pattern flags span]
  | .array elements _ => elementLeaves elements
  | .object properties _ => propertyLeaves properties
  | .function _ _ body _ => body.leaves
  | .call callee arguments _ => callee.leaves ++ nodeLeaves arguments
  | .new callee none _ => callee.leaves
  | .new callee (some arguments) _ => callee.leaves ++ nodeLeaves arguments
  | .memberAccess object _ _ => object.leaves
  | .indexAccess object index _ => object.leaves ++ index.leaves
  | .assign target value _ => target.leaves ++ value.leaves
  | .assignmentBlock nodes _ _ => nodeLeaves nodes
  | .binary _ left right _ => left.leaves ++ right.leaves
  | .unsignedRightShift left right _ => left.leaves ++ right.leaves
  | .unary _ operand _ => operand.leaves
  | .logical _ left right _ => left.leaves ++ right.leaves
  | .strictCompare _ left right _ => left.leaves ++ right.leaves
  | .instanceOf value constructor _ => value.leaves ++ constructor.leaves
  | .membership property object _ => property.leaves ++ object.leaves
  | .typeOf operand _ => operand.leaves
  | .void operand _ => operand.leaves
  | .delete operand _ => operand.leaves
  | .postfixStep _ target _ => target.leaves
  | .«return» value _ => value.leaves
  | .«if» test consequent none _ _ _ => test.leaves ++ consequent.leaves
  | .«if» test consequent (some alternate) _ _ _ =>
    test.leaves ++ consequent.leaves ++ alternate.leaves
  | .switch discriminant cases default _ _ =>
    discriminant.leaves ++ caseLeaves cases ++ default.leaves
  | .«while» test body _ _ _ => test.leaves ++ body.leaves
  | .forStep init test increment body _ _ =>
    init.leaves ++ test.leaves ++ increment.leaves ++ body.leaves
  | .forIn target object body _ _ => target.leaves ++ object.leaves ++ body.leaves
  | .«break» _ _ => []
  | .«continue» _ _ => []
  | .«try» body handler cleanup _ _ => body.leaves ++ handlerLeaves handler ++ cleanupLeaves cleanup
  | .block content => content.leaves
  | .«with» object body _ _ => object.leaves ++ body.leaves
  | .«throw» value _ => value.leaves

@[simp] def Block.leaves : Block → List Node
  | ⟨statements, _, _⟩ => nodeLeaves statements

@[simp] def nodeLeaves : List Node → List Node
  | [] => []
  | node :: rest => node.leaves ++ nodeLeaves rest

@[simp] def elementLeaves : List (Option Node) → List Node
  | [] => []
  | none :: rest => elementLeaves rest
  | some node :: rest => node.leaves ++ elementLeaves rest

@[simp] def propertyLeaves : List Property → List Node
  | [] => []
  | ⟨_, value⟩ :: rest => value.leaves ++ propertyLeaves rest

@[simp] def caseLeaves : List SwitchCase → List Node
  | [] => []
  | ⟨test, body, _⟩ :: rest => test.leaves ++ body.leaves ++ caseLeaves rest

@[simp] def handlerLeaves : Option Catch → List Node
  | none => []
  | some ⟨_, body, _⟩ => body.leaves

@[simp] def cleanupLeaves : Option Block → List Node
  | none => []
  | some body => body.leaves

end

theorem nodeLeaves_eq_flatMap (nodes : List Node) :
    nodeLeaves nodes = nodes.flatMap Node.leaves := by
  induction nodes with
  | nil => rfl
  | cons node rest ih => rw [nodeLeaves, ih, List.flatMap_cons]

theorem propertyLeaves_append (known rest : List Property) :
    propertyLeaves (known ++ rest) = propertyLeaves known ++ propertyLeaves rest := by
  induction known with
  | nil => rfl
  | cons p known ih =>
    obtain ⟨_, value⟩ := p
    simp only [List.cons_append, propertyLeaves, ih, List.append_assoc]

theorem caseLeaves_append (cases rest : List SwitchCase) :
    caseLeaves (cases ++ rest) = caseLeaves cases ++ caseLeaves rest := by
  induction cases with
  | nil => rfl
  | cons c cases ih =>
    obtain ⟨test, body, _⟩ := c
    simp only [List.cons_append, caseLeaves, ih, List.append_assoc]

end Ecma3
