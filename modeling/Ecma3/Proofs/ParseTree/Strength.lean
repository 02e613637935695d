import Ecma3.Grammar.Operator

/-! How tightly the constructs of the grammar hold together. -/
namespace Ecma3

/-- How tightly a construct holds together when it is an operand; nothing for what is no
expression. From loose to tight: comma expressions, assignments, conditionals, the ten levels of
binary operators, operators before their operand, `++` and `--` after it, calls and member
accesses, `new`, and what needs no parentheses anywhere. -/
def Kind.strength? : Kind → Option Nat
  | .comma => some 0
  | .assign | .addAssign | .subtractAssign | .multiplyAssign | .divideAssign | .moduloAssign
  | .shiftLeftAssign | .shiftRightAssign | .shiftRightUnsignedAssign | .bitAndAssign | .bitOrAssign
  | .bitXorAssign => some 1
  | .conditional => some 2
  | .increment | .decrement | .bitNot | .logicalNot | .negate | .plus | .typeOf | .void
  | .delete => some 13
  | .postIncrement | .postDecrement => some 14
  | .call | .byField | .byIndex => some 15
  | .new => some 16
  | .«this» | .identifier | .decimalLiteral | .hexLiteral | .stringLiteral | .regexLiteral
  | .nullLiteral | .trueLiteral | .falseLiteral | .array | .object | .parenthesized
  | .function => some 17
  | kind => (Grammar.precedence? kind).map (· + 2)

namespace Grammar

variable {t : Token} {kind : Kind} {p : Nat}

theorem simpleKind?_strength (h : simpleKind? t = some kind) : kind.strength? = some 17 := by
  unfold simpleKind? at h
  split at h <;> cases h <;> rfl

theorem postfixKind?_strength (h : postfixKind? t = some kind) :
    kind.strength? = some 14 := by
  unfold postfixKind? at h
  split at h <;> cases h <;> rfl

theorem unaryKind?_strength (h : unaryKind? t = some kind) :
    kind.strength? = some 13 := by
  unfold unaryKind? at h
  split at h <;> cases h <;> rfl

theorem assignmentKind?_strength (h : assignmentKind? t = some kind) :
    kind.strength? = some 1 := by
  unfold assignmentKind? at h
  split at h <;> cases h <;> rfl

theorem precedence?_range (h : precedence? kind = some p) : 1 ≤ p ∧ p ≤ 10 := by
  unfold precedence? at h
  split at h <;> cases h <;> decide

theorem precedence?_strength (h : precedence? kind = some p) :
    kind.strength? = some (p + 2) := by
  unfold precedence? at h
  split at h <;> cases h <;> rfl

theorem binaryOperator?_precedence {allowIn : Bool}
    (h : binaryOperator? allowIn t = some (kind, p)) : precedence? kind = some p := by
  simp only [binaryOperator?, Option.bind_eq_bind, Option.bind_eq_some_iff] at h
  obtain ⟨k, -, q, hq, h⟩ := h
  split at h <;> cases h
  exact hq

theorem binaryOperator?_range {allowIn : Bool} (h : binaryOperator? allowIn t = some (kind, p)) :
    1 ≤ p ∧ p ≤ 10 := precedence?_range (binaryOperator?_precedence h)

theorem binaryOperator?_strength {allowIn : Bool} (h : binaryOperator? allowIn t = some (kind, p)) :
    kind.strength? = some (p + 2) := precedence?_strength (binaryOperator?_precedence h)

end Grammar
end Ecma3
