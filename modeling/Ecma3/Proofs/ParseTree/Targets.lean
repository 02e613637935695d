import Mathlib.Algebra.BigOperators.Ring.List
import Mathlib.Algebra.Order.BigOperators.Group.List
import Mathlib.Algebra.Order.Ring.Nat
import Ecma3.Proofs.ParseTree.Detached
import Ecma3.Proofs.ParseTree.Nodes

/-!
Targets inside targets. A compound assignment or a step before its operand is written out with its
target twice, so each such construct around a node doubles how often the node is written.
-/
namespace Ecma3

/-- Compound assignments, and steps before their operand. -/
def Kind.copiesTarget : Kind → Bool
  | .addAssign | .subtractAssign | .multiplyAssign | .divideAssign | .moduloAssign
  | .shiftLeftAssign | .shiftRightAssign | .shiftRightUnsignedAssign | .bitAndAssign | .bitOrAssign
  | .bitXorAssign | .increment | .decrement => true
  | _ => false

namespace ParseTree

variable {t : ParseTree} {kind : Kind} {text : String} {span : Span} {children : List ParseTree}

mutual

/-- For each node of the tree, each before its children: in how many targets of compound assignments
and of steps before their operand it stands. The tree itself stands in `outer`. -/
def targets (outer : Nat) : ParseTree → List Nat
  | ⟨kind, _, _, children⟩ =>
    outer :: targetsOf (if kind.copiesTarget then outer + 1 else outer) outer children

/-- The same for the children of a node, of which the first can be a target. -/
def targetsOf (first rest : Nat) : List ParseTree → List Nat
  | [] => []
  | t :: ts => targets first t ++ targetsOf rest rest ts

end

/-- The nodes of the tree, each counted as often as it is written. -/
def copies (t : ParseTree) : Nat := ((t.targets 0).map (2 ^ ·)).sum

/-- The nodes of the tree, each counted once in up to two targets and twice as often in each one
more. -/
def weight (t : ParseTree) : Nat := ((t.targets 0).map fun n => 2 ^ (n - 2)).sum

mutual

theorem length_targets (outer : Nat) : ∀ t : ParseTree, (t.targets outer).length = t.nodes.length
  | ⟨kind, text, span, children⟩ => by
    rw [targets, nodes, List.length_cons, List.length_cons, length_targetsOf]

theorem length_targetsOf (first rest : Nat) :
    ∀ ts : List ParseTree, (targetsOf first rest ts).length = (nodesOf ts).length
  | [] => rfl
  | t :: ts => by
    rw [targetsOf, nodesOf, List.length_append, List.length_append, length_targets,
      length_targetsOf]

end

mutual

theorem targets_add (n outer : Nat) : ∀ t : ParseTree,
    t.targets (n + outer) = (t.targets outer).map (n + ·)
  | ⟨kind, text, span, children⟩ => by
    rw [targets, targets, List.map_cons, ← targetsOf_add]
    congr 2
    split <;> rfl

theorem targetsOf_add (n first rest : Nat) : ∀ ts : List ParseTree,
    targetsOf (n + first) (n + rest) ts = (targetsOf first rest ts).map (n + ·)
  | [] => rfl
  | t :: ts => by
    rw [targetsOf, targetsOf, List.map_append, targets_add, targetsOf_add]

end

theorem copies_target (t : ParseTree) : ((t.targets 1).map (2 ^ ·)).sum = 2 * t.copies := by
  rw [targets_add 1 0, List.map_map, copies, ← List.sum_map_mul_left]
  congr 1
  exact List.map_congr_left fun n _ => (Nat.pow_add 2 1 n)

theorem copies_children (ts : List ParseTree) :
    ((targetsOf 0 0 ts).map (2 ^ ·)).sum = (ts.map copies).sum := by
  induction ts with
  | nil => rfl
  | cons t ts ih => rw [targetsOf, List.map_append, List.sum_append, ih, List.map_cons, List.sum_cons,
      copies]

theorem copies_of_copiesTarget {target : ParseTree} {rest : List ParseTree}
    (h : t.kind.copiesTarget = true) (hchildren : t.children = target :: rest) :
    t.copies = 1 + 2 * target.copies + (rest.map copies).sum := by
  obtain ⟨kind, text, span, children⟩ := t
  cases hchildren
  rw [copies, targets, if_pos h, targetsOf, List.map_cons, List.map_append, List.sum_cons,
    List.sum_append, copies_target, copies_children, Nat.add_assoc]
  rfl

theorem copies_of_not_copiesTarget (h : t.kind.copiesTarget = false) :
    t.copies = 1 + (t.children.map copies).sum := by
  obtain ⟨kind, text, span, children⟩ := t
  rw [copies, targets, if_neg (by simp [h]), List.map_cons, List.sum_cons, copies_children]
  rfl

/-- Every node is written at least once. -/
theorem copies_children_lt (t : ParseTree) : 1 + (t.children.map copies).sum ≤ t.copies := by
  cases h : t.kind.copiesTarget with
  | false => exact Nat.le_of_eq (copies_of_not_copiesTarget h).symm
  | true =>
    cases hchildren : t.children with
    | nil =>
      obtain ⟨kind, text, span, children⟩ := t
      cases hchildren
      simp [copies, targets, targetsOf]
    | cons target rest =>
      rw [copies_of_copiesTarget h hchildren, List.map_cons, List.sum_cons]
      omega

theorem copies_le_weight (t : ParseTree) : t.copies ≤ 4 * t.weight := by
  rw [copies, weight, ← List.sum_map_mul_left]
  refine List.sum_le_sum fun n _ => ?_
  calc
    2 ^ n ≤ 2 ^ (2 + (n - 2)) := Nat.pow_le_pow_right (by decide) (by omega)
    _ = 4 * 2 ^ (n - 2) := Nat.pow_add 2 2 (n - 2)

/-- Where no node stands in more than two targets, nothing is counted twice. -/
theorem weight_eq_length (h : ∀ n ∈ t.targets 0, n ≤ 2) : t.weight = t.nodes.length := by
  have hone : (t.targets 0).map (fun n => 2 ^ (n - 2)) = (t.targets 0).map fun _ => 1 :=
    List.map_congr_left fun n hn => by rw [Nat.sub_eq_zero_of_le (h n hn), Nat.pow_zero]
  rw [weight, hone, List.map_const', List.sum_replicate, length_targets]
  simp

/-- A chain is smaller without the `new` at its base. -/
theorem copies_withoutNew? {d : Detached} (hd : t.withoutNew? = some d) :
    d.tree.copies + 1 ≤ t.copies := by
  fun_induction withoutNew? t generalizing d with
  | case1 => simp at hd
  | case2 kind text span first rest haccess ih =>
    obtain ⟨e, he, rfl⟩ := Option.map_eq_some_iff.1 hd
    have hfirst := ih he
    have hkind : kind.copiesTarget = false := by
      simp only [isAccess, Bool.or_eq_true, beq_iff_eq] at haccess
      rcases haccess with rfl | rfl <;> rfl
    rw [copies_of_not_copiesTarget hkind, copies_of_not_copiesTarget hkind]
    simp only [List.map_cons, List.sum_cons]
    omega
  | case3 text span first rest haccess =>
    cases hd
    dsimp only
    have hle := copies_children_lt ⟨.new, text, span, first :: rest⟩
    simp only [List.map_cons, List.sum_cons] at hle
    omega
  | case4 => simp at hd

end ParseTree
end Ecma3
