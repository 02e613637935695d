import Mathlib.Logic.Relation
import Ecma3.Ast.Node

/-!
What stands directly inside a node, and what stands anywhere inside. Cases and handlers are parts of
their own for some purposes and not for others, so a table says what becomes of each.
-/
namespace Ecma3

variable {α : Type}

/-- What stands directly inside a node: nodes and blocks, and what is made of handlers, of cases and of
the block that a statement consists of. -/
@[simp] def Node.children (node : Node → α) (block : Block → α) (handler : Catch → α)
    (clause : SwitchCase → List α) (statement : Block → List α) : Node → List α
  | .array elements _ => (elements.filterMap id).map node
  | .object properties _ => properties.map fun p => node p.value
  | .function _ _ body _ => [block body]
  | .call callee arguments _ => node callee :: arguments.map node
  | .new callee arguments _ => node callee :: (arguments.getD []).map node
  | .memberAccess holder _ _ => [node holder]
  | .indexAccess holder index _ => [node holder, node index]
  | .assign target value _ => [node target, node value]
  | .assignmentBlock nodes _ _ => nodes.map node
  | .binary _ left right _ | .unsignedRightShift left right _ | .logical _ left right _
  | .strictCompare _ left right _ | .instanceOf left right _ | .membership left right _ =>
    [node left, node right]
  | .unary _ operand _ | .typeOf operand _ | .void operand _ | .delete operand _
  | .postfixStep _ operand _ | .«return» operand _ | .«throw» operand _ => [node operand]
  | .«if» test consequent alternate _ _ _ =>
    node test :: node consequent :: alternate.toList.map node
  | .switch discriminant cases default _ _ =>
    node discriminant :: cases.flatMap clause ++ [node default]
  | .«while» test body _ _ _ => [node test, node body]
  | .forStep init test increment body _ _ => [node init, node test, node increment, node body]
  | .forIn target holder body _ _ => [node target, node holder, node body]
  | .«try» body catcher cleanup _ _ =>
    block body :: catcher.toList.map handler ++ cleanup.toList.map block
  | .block content => statement content
  | .«with» scope body _ _ => [node scope, node body]
  | .identifier .. | .integer .. | .float .. | .string .. | .boolean .. | .null .. | .regex ..
  | .«break» .. | .«continue» .. => []

/-- The part stands somewhere inside the root, or is the root. -/
def Nests (inner : α → List α) (root p : α) : Prop :=
  Relation.ReflTransGen (fun p q => q ∈ inner p) root p

variable {inner : α → List α} {Q : α → Prop} {p q : α}

/-- What holds of the root and anywhere inside its parts holds anywhere inside the root. -/
theorem forall_nests (hown : Q p) (h : ∀ q ∈ inner p, ∀ r, Nests inner q r → Q r) :
    ∀ q, Nests inner p q → Q q := by
  intro q hq
  rcases Relation.ReflTransGen.cases_head hq with rfl | ⟨r, hr, hrq⟩
  · exact hown
  · exact h r hr q hrq

theorem Nests.cons (hq : q ∈ inner p) {r : α} (h : Nests inner q r) : Nests inner p r := .head hq h

end Ecma3
