import Mathlib.Algebra.GroupWithZero.Nat
import Mathlib.Data.List.Chain
import Ecma3.Proofs.Ast.Children
import Ecma3.Proofs.Ast.Property

/-!
The nodes and blocks that a syntax tree consists of: what stands directly inside each, how long the
paths through them are, and how many there are.
-/
namespace Ecma3

/-- A node, or the block that is the body of a function, of a case or of a part of a `try`. -/
inductive Piece where
  | node (n : Node)
  | block (b : Block)

/-- The pieces directly inside a node. A block that is a statement holds its statements itself. -/
@[simp] def Node.parts : Node → List Piece :=
  Node.children .node .block (fun c => .block c.body) (fun c => [.node c.test, .block c.body])
    fun b => b.statements.map .node

namespace Piece

/-- The pieces directly inside a piece. -/
@[simp] def parts : Piece → List Piece
  | .node n => n.parts
  | .block b => b.statements.map .node

variable {p q : Piece} {m n : Nat}

/-- Pieces one inside the other, from the outermost inwards. -/
def IsPath (path : List Piece) : Prop := path.IsChain fun p q => q ∈ p.parts

/-- No path from the piece inwards is longer than this. -/
def Shallow : Nat → Piece → Prop
  | 0, _ => False
  | n + 1, p => ∀ q ∈ p.parts, q.Shallow n

theorem Shallow.pos (h : p.Shallow n) : 0 < n := by
  cases n with
  | zero => exact h.elim
  | succ n => exact Nat.succ_pos n

theorem Shallow.mono (h : p.Shallow m) (hm : m ≤ n) : p.Shallow n := by
  induction m generalizing n p with
  | zero => exact h.elim
  | succ m ih =>
    obtain ⟨n, rfl⟩ := Nat.exists_eq_succ_of_ne_zero (show n ≠ 0 by omega)
    exact fun q hq => ih (h q hq) (by omega)

theorem shallow_of_parts_eq_nil (h : p.parts = []) (hn : 0 < n) : p.Shallow n := by
  obtain ⟨n, rfl⟩ := Nat.exists_eq_succ_of_ne_zero (Nat.ne_of_gt hn)
  intro q hq
  rw [h] at hq
  cases hq

theorem Shallow.length_le {path : List Piece} (h : p.Shallow n) (hpath : IsPath (p :: path)) :
    (p :: path).length ≤ n := by
  induction path generalizing n p with
  | nil => exact h.pos
  | cons q path ih =>
    obtain ⟨n, rfl⟩ := Nat.exists_eq_succ_of_ne_zero (Nat.ne_of_gt h.pos)
    obtain ⟨hq, hpath⟩ := List.isChain_cons_cons.1 hpath
    exact Nat.succ_le_succ (ih (h q hq) hpath)

end Piece

mutual

/-- How many nodes and blocks the node consists of. A block that is a statement is both. -/
@[simp] def Node.size : Node → Nat
  | .identifier .. | .integer .. | .float .. | .string .. | .boolean .. | .null .. | .regex ..
  | .«break» .. | .«continue» .. => 1
  | .array elements _ => 1 + elementSizes elements
  | .object properties _ => 1 + propertySizes properties
  | .function _ _ body _ => 1 + body.size
  | .call callee arguments _ => 1 + callee.size + nodeSizes arguments
  | .new callee none _ => 1 + callee.size
  | .new callee (some arguments) _ => 1 + callee.size + nodeSizes arguments
  | .memberAccess holder _ _ => 1 + holder.size
  | .indexAccess holder index _ => 1 + holder.size + index.size
  | .assign target value _ => 1 + target.size + value.size
  | .assignmentBlock nodes _ _ => 1 + nodeSizes nodes
  | .binary _ left right _ | .unsignedRightShift left right _ | .logical _ left right _
  | .strictCompare _ left right _ | .instanceOf left right _ | .membership left right _ =>
    1 + left.size + right.size
  | .unary _ operand _ | .typeOf operand _ | .void operand _ | .delete operand _
  | .postfixStep _ operand _ | .«return» operand _ | .«throw» operand _ => 1 + operand.size
  | .«if» test consequent none _ _ _ => 1 + test.size + consequent.size
  | .«if» test consequent (some alternate) _ _ _ =>
    1 + test.size + consequent.size + alternate.size
  | .switch discriminant cases default _ _ => 1 + discriminant.size + caseSizes cases + default.size
  | .«while» test body _ _ _ => 1 + test.size + body.size
  | .forStep init test increment body _ _ =>
    1 + init.size + test.size + increment.size + body.size
  | .forIn target holder body _ _ => 1 + target.size + holder.size + body.size
  | .«try» body handler cleanup _ _ => 1 + body.size + handlerSize handler + cleanupSize cleanup
  | .block content => 1 + content.size
  | .«with» scope body _ _ => 1 + scope.size + body.size

@[simp] def Block.size : Block → Nat
  | ⟨statements, _, _⟩ => 1 + nodeSizes statements

@[simp] def nodeSizes : List Node → Nat
  | [] => 0
  | node :: rest => node.size + nodeSizes rest

@[simp] def elementSizes : List (Option Node) → Nat
  | [] => 0
  | none :: rest => elementSizes rest
  | some node :: rest => node.size + elementSizes rest

@[simp] def propertySizes : List Property → Nat
  | [] => 0
  | ⟨_, value⟩ :: rest => value.size + propertySizes rest

@[simp] def caseSizes : List SwitchCase → Nat
  | [] => 0
  | ⟨test, body, _⟩ :: rest => test.size + body.size + caseSizes rest

@[simp] def handlerSize : Option Catch → Nat
  | none => 0
  | some ⟨_, body, _⟩ => body.size

@[simp] def cleanupSize : Option Block → Nat
  | none => 0
  | some body => body.size

end

namespace Piece

/-- How many nodes and blocks a piece consists of. -/
@[simp] def size : Piece → Nat
  | .node n => n.size
  | .block b => b.size

end Piece

theorem nodeSizes_eq (nodes : List Node) :
    nodeSizes nodes = ((nodes.map Piece.node).map Piece.size).sum := by
  induction nodes with
  | nil => rfl
  | cons node rest ih => simp [ih]

theorem elementSizes_eq (elements : List (Option Node)) :
    elementSizes elements = (((elements.filterMap id).map Piece.node).map Piece.size).sum := by
  induction elements with
  | nil => rfl
  | cons element rest ih => cases element <;> simp [ih]

theorem propertySizes_eq (properties : List Property) :
    propertySizes properties = ((properties.map fun p => .node p.value).map Piece.size).sum := by
  induction properties with
  | nil => rfl
  | cons p rest ih =>
    obtain ⟨name, value⟩ := p
    simp [ih]

theorem caseSizes_append (cases rest : List SwitchCase) :
    caseSizes (cases ++ rest) = caseSizes cases + caseSizes rest := by
  induction cases with
  | nil => simp
  | cons c cases ih =>
    obtain ⟨test, body, span⟩ := c
    simp only [List.cons_append, caseSizes, ih, Nat.add_assoc]

theorem caseSizes_eq (cases : List SwitchCase) :
    caseSizes cases =
      ((cases.flatMap fun c => [.node c.test, .block c.body]).map Piece.size).sum := by
  induction cases with
  | nil => rfl
  | cons c cases ih =>
    obtain ⟨test, body, span⟩ := c
    simp [ih, Nat.add_assoc]

namespace Node

/-- The node is no block, and has these pieces directly inside. -/
structure Holds (n : Node) (pieces : List Piece) : Prop where
  parts : n.parts = pieces
  plain : ∀ content, n ≠ .block content

theorem Holds.size {n : Node} {pieces : List Piece} (h : n.Holds pieces) :
    n.size = 1 + (pieces.map Piece.size).sum := by
  obtain ⟨rfl, hplain⟩ := h
  cases n
  case block content => exact absurd rfl (hplain content)
  case new _ arguments _ => cases arguments <;> simp [nodeSizes_eq, Nat.add_assoc]
  case «if» _ _ alternate _ _ _ => cases alternate <;> simp [Nat.add_assoc]
  case «try» _ handler cleanup _ _ =>
    rcases handler with _ | ⟨_, _, _⟩ <;> cases cleanup <;> simp [Nat.add_assoc]
  all_goals
    simp [nodeSizes_eq, elementSizes_eq, propertySizes_eq, caseSizes_eq, Nat.add_assoc]

theorem Holds.shallow {n : Node} {pieces : List Piece} {bound : Nat} (h : n.Holds pieces)
    (hpieces : ∀ q ∈ pieces, q.Shallow bound) : (Piece.node n).Shallow (bound + 1) := by
  intro q hq
  rw [Piece.parts, h.parts] at hq
  exact hpieces q hq

end Node

namespace Property

variable {name : String} {value : Node} {properties : List Property}

/-- The value that was there before is not counted any more. -/
theorem propertySizes_put_le :
    propertySizes (put name value properties) ≤ propertySizes properties + value.size := by
  induction properties with
  | nil => simp [put]
  | cons q rest ih =>
    obtain ⟨other, old⟩ := q
    rw [put]
    split <;> simp only [propertySizes] <;> omega

end Property
end Ecma3
