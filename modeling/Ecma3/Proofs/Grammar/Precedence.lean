import Ecma3.Proofs.Outcome
import Ecma3.Proofs.Grammar.Program
import Ecma3.Proofs.ParseTree.Nodes

/-!
Precedence and associativity. Without parentheses around it no operand of an operator holds together
more loosely than the operator allows, whatever chain of operators it was read from.
-/
namespace Ecma3

open Grammar (precedence? precedence?_strength precedence?_range)

variable {kind : Kind} {t u : ParseTree} {n p : Nat}

namespace Kind

/-- Simple and compound assignments. -/
def isAssignment : Kind → Bool
  | .assign | .addAssign | .subtractAssign | .multiplyAssign | .divideAssign | .moduloAssign
  | .shiftLeftAssign | .shiftRightAssign | .shiftRightUnsignedAssign | .bitAndAssign | .bitOrAssign
  | .bitXorAssign => true
  | _ => false

/-- What binds less tightly than any binary operator: comma expressions, assignments and
conditionals. -/
def isLoose (kind : Kind) : Bool := kind == .comma || kind == .conditional || kind.isAssignment

/-- Operators with one operand, before it or after it. -/
def isUnary : Kind → Bool
  | .increment | .decrement | .postIncrement | .postDecrement | .bitNot | .logicalNot | .negate
  | .plus | .typeOf | .void | .delete => true
  | _ => false

/-- Calls and member accesses. -/
def isSuffixed : Kind → Bool
  | .call | .byField | .byIndex => true
  | _ => false

/-- What has expressions between commas, or other operands that are no comma expressions. -/
def separates : Kind → Bool
  | .comma | .conditional | .arguments | .item | .namedValue => true
  | kind => kind.isAssignment

theorem isAssignment_strength (h : kind.isAssignment = true) : kind.strength? = some 1 := by
  cases kind <;> first | rfl | cases h

theorem isUnary_strength (h : kind.isUnary = true) :
    kind.strength? = some 13 ∨ kind.strength? = some 14 := by
  cases kind <;> first | exact Or.inl rfl | exact Or.inr rfl | cases h

theorem isSuffixed_cases (h : kind.isSuffixed = true) :
    kind = .call ∨ kind = .byField ∨ kind = .byIndex := by
  cases kind <;> first | decide | cases h

theorem isLoose_strength (h : kind.isLoose = true) : ∃ n ≤ 2, kind.strength? = some n := by
  simp only [isLoose, Bool.or_eq_true, beq_iff_eq] at h
  rcases h with (rfl | rfl) | hassignment
  · exact ⟨0, by decide, rfl⟩
  · exact ⟨2, by decide, rfl⟩
  · exact ⟨1, by decide, isAssignment_strength hassignment⟩

end Kind

namespace ParseTree

/-- The tree is no binary operator with its operands. -/
def NotBinary (t : ParseTree) : Prop := precedence? t.kind = none

/-- What a node demands of its operands, which are not below parentheses. -/
structure Graded (t : ParseTree) : Prop where
  binary : ∀ p, precedence? t.kind = some p → ∃ left right, t.children = [left, right] ∧
    (∀ q, precedence? left.kind = some q → p ≤ q) ∧
    (∀ q, precedence? right.kind = some q → p < q) ∧
    left.kind.isLoose = false ∧ right.kind.isLoose = false
  unary : t.kind.isUnary = true → ∃ operand, t.children = [operand] ∧
    operand.NotBinary ∧ operand.kind.isLoose = false
  suffixed : t.kind.isSuffixed = true → ∃ object other, t.children = [object, other] ∧
    object.NotBinary ∧ object.kind.isLoose = false
  test : t.kind = .conditional → ∃ test consequent alternate,
    t.children = [test, consequent, alternate] ∧ test.kind.isLoose = false
  operands : t.kind.separates = true → ∀ c ∈ t.children, c.kind ≠ .comma

namespace Binds

theorem not_loose (h : t.Binds n) (hn : 3 ≤ n) : t.kind.isLoose = false := by
  obtain ⟨k, hk, hle⟩ := h
  cases hloose : t.kind.isLoose with
  | false => rfl
  | true =>
    obtain ⟨m, hm, hstrength⟩ := Kind.isLoose_strength hloose
    rw [hk, Option.some.injEq] at hstrength
    omega

theorem ne_comma (h : t.Binds n) (hn : 1 ≤ n) : t.kind ≠ .comma := by
  obtain ⟨k, hk, hle⟩ := h
  intro hcomma
  rw [hcomma] at hk
  cases hk
  omega

/-- A binary operator in it binds no less tightly than it holds together. -/
theorem precedence (h : t.Binds n) {q : Nat} (hq : precedence? t.kind = some q) : n ≤ q + 2 := by
  obtain ⟨k, hk, hle⟩ := h
  rw [precedence?_strength hq] at hk
  cases hk
  exact hle

theorem notBinary (h : t.Binds n) (hn : 13 ≤ n) : t.NotBinary := by
  unfold NotBinary
  cases hq : precedence? t.kind with
  | none => rfl
  | some q =>
    have hrange := precedence?_range hq
    have hle := h.precedence hq
    omega

end Binds

theorem IsPropertyName.ne_comma (h : t.IsPropertyName) : t.kind ≠ .comma := by
  intro hcomma
  simp [IsPropertyName, hcomma] at h

namespace Shape

theorem suffixed (h : t.Shape) (ht : t.kind.isSuffixed = true) :
    ∃ object other, t.children = [object, other] ∧ object.Binds 15 := by
  unfold Shape at h
  rcases Kind.isSuffixed_cases ht with hk | hk | hk <;> rw [hk] at h
  all_goals
    obtain ⟨object, other, hchildren, hobject, -⟩ := h
    exact ⟨object, other, hchildren, hobject⟩

theorem operands (h : t.Shape) (ht : t.kind.separates = true) :
    ∀ c ∈ t.children, c.kind ≠ .comma := by
  have hone : ∀ c : ParseTree, c.Binds 1 → c.kind ≠ .comma := fun c hc => hc.ne_comma (by decide)
  cases hassignment : t.kind.isAssignment with
  | true =>
    have hparts := shape_assignment h (Kind.isAssignment_strength hassignment)
    exact hparts.forall_children (fun a ha => ha.ne_comma (by decide)) hone
  | false =>
    unfold Shape at h
    cases hk : t.kind <;> rw [hk] at h ht hassignment
    case comma => exact fun c hc => hone c (h.2 c hc)
    case conditional =>
      obtain ⟨test, consequent, alternate, hchildren, htest, hconsequent, halternate⟩ := h
      rw [hchildren]
      simp only [List.forall_mem_cons, List.not_mem_nil, false_implies, implies_true, and_true]
      exact ⟨htest.ne_comma (by decide), hone _ hconsequent, hone _ halternate⟩
    case arguments => exact fun c hc => hone c (h c hc)
    case item => exact AtMostOne.forall_children h hone
    case namedValue => exact Binary.forall_children h (fun _ hname => hname.ne_comma) hone
    all_goals first
      | exact absurd ht (by decide)
      | exact absurd hassignment (by decide)

/-- Children of the right shape are operands that hold together tightly enough. -/
theorem graded (h : t.Shape) : t.Graded where
  binary p hp := by
    obtain ⟨left, right, hchildren, hleft, hright⟩ := shape_binary h hp
    have hrange := precedence?_range hp
    refine ⟨left, right, hchildren, fun q hq => ?_, fun q hq => ?_, ?_, ?_⟩
    · have hle := hleft.precedence hq
      omega
    · have hle := hright.precedence hq
      omega
    · exact hleft.not_loose (by omega)
    · exact hright.not_loose (by omega)
  unary ht := by
    obtain ⟨operand, hchildren, hoperand⟩ := shape_unary h (Kind.isUnary_strength ht)
    exact ⟨operand, hchildren, hoperand.notBinary (by decide), hoperand.not_loose (by decide)⟩
  suffixed ht := by
    obtain ⟨object, other, hchildren, hobject⟩ := h.suffixed ht
    exact ⟨object, other, hchildren, hobject.notBinary (by decide), hobject.not_loose (by decide)⟩
  test ht := by
    unfold Shape at h
    rw [ht] at h
    obtain ⟨test, consequent, alternate, hchildren, htest, -⟩ := h
    exact ⟨test, consequent, alternate, hchildren, htest.not_loose (by decide)⟩
  operands := h.operands

end Shape

end ParseTree

namespace Grammar

/-- Every node of every tree that a source gives has operands that bind as tightly as it demands. -/
theorem parse_graded {limit : Nat} {source : String} {root : Option ParseTree}
    (hroot : parse limit source = .ok root) :
    ∀ t ∈ root.toList.flatMap ParseTree.nodes, t.Graded := by
  intro t ht
  obtain ⟨u, hu, hmem⟩ := List.mem_flatMap.1 ht
  obtain rfl : root = some u := Option.mem_toList.1 hu
  exact ((parse_isRoot hroot).1.nodes t hmem).graded

theorem parse_graded_chain : ∃ root, parse 5 "a = b - c * d - e, !f" = .ok root ∧
    ∀ t ∈ root.toList.flatMap ParseTree.nodes, t.Graded := by
  have hok : (parse 5 "a = b - c * d - e, !f").isOk = true := by decide +kernel
  obtain ⟨root, hroot⟩ := ok_of_isOk hok
  exact ⟨root, hroot, parse_graded hroot⟩

end Grammar
end Ecma3
