import Ecma3.Build.Literal
import Ecma3.ParseTree.Basic
import Ecma3.Proofs.ParseTree.Strength

/-! The children that each kind of node has in a tree that comes from a text. -/
namespace Ecma3

def Kind.isStatement : Kind → Bool
  | .block | .var | .expression | .«if» | .«do» | .«while» | .«for» | .«continue» | .«break»
  | .«return» | .«with» | .switch | .«throw» | .«try» | .function | .labelled | .debugger => true
  | _ => false

namespace ParseTree

variable {t : ParseTree} {P Q R : ParseTree → Prop} {m n : Nat}

theorem nil_or_singleton {trees : List ParseTree} (h : trees.length ≤ 1) :
    trees = [] ∨ ∃ t, trees = [t] := by
  cases trees with
  | nil => exact Or.inl rfl
  | cons t rest =>
    cases rest with
    | nil => exact Or.inr ⟨t, rfl⟩
    | cons => simp at h

/-- An expression that holds together at least this tightly. -/
def Binds (least : Nat) (t : ParseTree) : Prop := ∃ n, t.kind.strength? = some n ∧ least ≤ n

theorem Binds.mono (h : t.Binds n) (hm : m ≤ n) : t.Binds m := by
  obtain ⟨k, hk, hn⟩ := h
  exact ⟨k, hk, Nat.le_trans hm hn⟩

/-- A statement. One that is an expression has that expression as its child. -/
def IsStatement (t : ParseTree) : Prop :=
  t.kind.isStatement = true ∧ (t.kind = .expression → ∃ e, t.children = [e] ∧ e.Binds 0)

/-- A name, or a name with its first value. -/
def IsDeclarator (t : ParseTree) : Prop :=
  t.kind = .identifier ∨
    t.kind = .assign ∧ ∃ name value, t.children = [name, value] ∧ name.kind = .identifier

/-- A clause of the head of a loop, which may be left out. -/
def IsClause (t : ParseTree) : Prop :=
  t.kind = .expression ∧
    (t.children = [] ∨ ∃ e, t.children = [e] ∧ (e.Binds 0 ∨ e.kind = .var))

/-- A clause that is not left out. -/
def IsFilledClause (t : ParseTree) : Prop := t.IsClause ∧ t.children ≠ []

def IsPropertyName (t : ParseTree) : Prop :=
  t.kind = .identifier ∨ t.kind = .stringLiteral ∨ t.kind = .decimalLiteral ∨ t.kind = .hexLiteral

/-- What a node has between its braces or after its colon. -/
def AllStatements (children : List ParseTree) : Prop := ∀ c ∈ children, c.IsStatement

/-- One child, which satisfies `P`. -/
def Unary (P : ParseTree → Prop) (t : ParseTree) : Prop := ∃ a, t.children = [a] ∧ P a

/-- Two children. -/
def Binary (P Q : ParseTree → Prop) (t : ParseTree) : Prop :=
  ∃ a b, t.children = [a, b] ∧ P a ∧ Q b

/-- No children or one. -/
def AtMostOne (P : ParseTree → Prop) (t : ParseTree) : Prop := t.children = [] ∨ t.Unary P

theorem Unary.forall_children (h : t.Unary P) (hP : ∀ a, P a → R a) : ∀ c ∈ t.children, R c := by
  obtain ⟨a, hchildren, ha⟩ := h
  rw [hchildren]
  exact List.forall_mem_singleton.2 (hP a ha)

theorem Binary.forall_children (h : t.Binary P Q) (hP : ∀ a, P a → R a) (hQ : ∀ b, Q b → R b) :
    ∀ c ∈ t.children, R c := by
  obtain ⟨a, b, hchildren, ha, hb⟩ := h
  rw [hchildren]
  exact List.forall_mem_cons.2 ⟨hP a ha, List.forall_mem_singleton.2 (hQ b hb)⟩

theorem AtMostOne.forall_children (h : t.AtMostOne P) (hP : ∀ a, P a → R a) :
    ∀ c ∈ t.children, R c := by
  rcases h with hnone | hone
  · simp [hnone]
  · exact hone.forall_children hP

theorem Unary.length_eq (h : t.Unary P) : t.children.length = 1 := by
  obtain ⟨a, hchildren, -⟩ := h
  rw [hchildren]
  rfl

theorem Binary.length_eq (h : t.Binary P Q) : t.children.length = 2 := by
  obtain ⟨a, b, hchildren, -, -⟩ := h
  rw [hchildren]
  rfl

theorem AtMostOne.length_le (h : t.AtMostOne P) : t.children.length ≤ 1 := by
  rcases h with hnone | hone
  · simp [hnone]
  · exact Nat.le_of_eq hone.length_eq

theorem IsClause.length_le (h : t.IsClause) : t.children.length ≤ 1 := by
  rcases h.2 with hnone | ⟨e, hchildren, -⟩
  · simp [hnone]
  · simp [hchildren]

/-- The children that a node of its kind has. -/
def Shape (t : ParseTree) : Prop :=
  match t.kind with
  | .unit | .block | .«default» => AllStatements t.children
  | .var => t.children ≠ [] ∧ ∀ c ∈ t.children, c.IsDeclarator
  | .expression => t.children.length ≤ 1
  | .parenthesized | .«throw» => t.Unary (Binds 0)
  | .comma => 2 ≤ t.children.length ∧ ∀ c ∈ t.children, c.Binds 1
  | .object => ∀ c ∈ t.children, c.kind = .namedValue
  | .namedValue => t.Binary IsPropertyName (Binds 1)
  | .array => ∀ c ∈ t.children, c.kind = .item
  | .item => t.AtMostOne (Binds 1)
  | .function =>
    ∃ name parameters body, t.children = name ++ [parameters, body] ∧ name.length ≤ 1 ∧
      (∀ c ∈ name, c.kind = .identifier) ∧ parameters.kind = .arguments ∧
      (∀ c ∈ parameters.children, c.kind = .identifier) ∧ body.kind = .block
  | .arguments => ∀ c ∈ t.children, c.Binds 1
  | .«return» => t.AtMostOne (Binds 0)
  | .call => t.Binary (Binds 15) (·.kind = .arguments)
  | .new => t.Unary (Binds 16)
  | .byField => t.Binary (Binds 15) (·.kind = .identifier)
  | .byIndex => t.Binary (Binds 15) (Binds 0)
  | .«if» =>
    ∃ test consequent alternate, t.children = test :: consequent :: alternate ∧ test.Binds 0 ∧
      consequent.IsStatement ∧ alternate.length ≤ 1 ∧ AllStatements alternate
  | .conditional =>
    ∃ test consequent alternate, t.children = [test, consequent, alternate] ∧ test.Binds 3 ∧
      consequent.Binds 1 ∧ alternate.Binds 1
  | .switch =>
    ∃ discriminant clauses, t.children = discriminant :: clauses ∧ discriminant.Binds 0 ∧
      (∀ c ∈ clauses, c.kind = .«case» ∨ c.kind = .«default») ∧
      (clauses.countP (·.kind == .«default»)) ≤ 1
  | .«case» =>
    ∃ test body, t.children = test :: body ∧ test.Binds 0 ∧ AllStatements body
  | .«try» =>
    ∃ body handler cleanup, t.children = body :: (handler ++ cleanup) ∧ body.kind = .block ∧
      (∀ c ∈ handler, c.kind = .«catch») ∧ handler.length ≤ 1 ∧
      (∀ c ∈ cleanup, c.kind = .«finally») ∧ cleanup.length ≤ 1 ∧ handler ++ cleanup ≠ []
  | .«catch» => t.Binary (·.kind = .identifier) (·.kind = .block)
  | .«finally» => t.Unary (·.kind = .block)
  | .«while» | .«with» => t.Binary (Binds 0) IsStatement
  | .«do» => t.Binary IsStatement (Binds 0)
  | .«for» => t.Binary (fun c => c.kind = .forStep ∨ c.kind = .forIn) IsStatement
  | .forStep =>
    ∃ init test update, t.children = [init, test, update] ∧ init.IsClause ∧ test.IsClause ∧
      update.IsClause
  | .forIn => t.Binary IsFilledClause IsFilledClause
  | .«break» | .«continue» => t.AtMostOne (·.kind = .identifier)
  | .labelled => t.Binary (·.kind = .identifier) IsStatement
  | .increment | .decrement | .bitNot | .logicalNot | .negate | .plus | .typeOf | .void
  | .delete => t.Unary (Binds 13)
  | .postIncrement | .postDecrement => t.Unary (Binds 15)
  | .assign | .addAssign | .subtractAssign | .multiplyAssign | .divideAssign | .moduloAssign
  | .shiftLeftAssign | .shiftRightAssign | .shiftRightUnsignedAssign | .bitAndAssign | .bitOrAssign
  | .bitXorAssign => t.Binary (Binds 2) (Binds 1)
  | .stringLiteral => t.children = [] ∧ (Build.Literal.string? t.text t.span).isSome
  | .regexLiteral => t.children = [] ∧ (Build.Literal.regex? t.text t.span).isSome
  | .«this» | .identifier | .debugger | .decimalLiteral | .hexLiteral | .nullLiteral | .trueLiteral
  | .falseLiteral => t.children = []
  | kind => ∃ p, Grammar.precedence? kind = some p ∧ t.Binary (Binds (p + 2)) (Binds (p + 3))

theorem shape_assignment (h : t.Shape) (hk : t.kind.strength? = some 1) :
    t.Binary (Binds 2) (Binds 1) := by
  unfold Shape at h
  cases hkind : t.kind <;> simp_all [Kind.strength?, Grammar.precedence?]

theorem shape_binary (h : t.Shape) (hk : Grammar.precedence? t.kind = some n) :
    t.Binary (Binds (n + 2)) (Binds (n + 3)) := by
  unfold Shape at h
  cases hkind : t.kind <;>
    simp only [hkind, Grammar.precedence?, Option.some.injEq, reduceCtorEq] at h hk
  all_goals
    subst hk
    simpa using h

/-- An `if` has at most one alternate, and a conditional expression has one. -/
theorem shape_conditional {test consequent : ParseTree} {rest : List ParseTree} (h : t.Shape)
    (hk : t.kind = .«if» ∨ t.kind = .conditional) (ht : t.children = test :: consequent :: rest) :
    rest.length ≤ 1 := by
  rcases hk with hk | hk <;> simp only [Shape, hk] at h
  · obtain ⟨_, _, _, hchildren, -, -, hlength, -⟩ := h
    cases ht.symm.trans hchildren
    exact hlength
  · obtain ⟨_, _, _, hchildren, -⟩ := h
    cases ht.symm.trans hchildren
    exact Nat.le_refl 1

/-- Operators before or after their operand. -/
theorem shape_unary (h : t.Shape) (hk : t.kind.strength? = some 13 ∨ t.kind.strength? = some 14) :
    t.Unary (Binds 13) := by
  unfold Shape at h
  cases hkind : t.kind <;> simp_all [Kind.strength?, Grammar.precedence?]
  all_goals
    obtain ⟨a, ha, hbinds⟩ := h
    exact ⟨a, ha, hbinds.mono (by omega)⟩

/-- `P` holds of the tree and of every tree inside it. -/
inductive Everywhere (P : ParseTree → Prop) : ParseTree → Prop where
  | intro {t : ParseTree} (root : P t) (inside : ∀ c ∈ t.children, Everywhere P c) : Everywhere P t

theorem Everywhere.root (h : t.Everywhere P) : P t := by
  cases h
  assumption

theorem Everywhere.inside (h : t.Everywhere P) : ∀ c ∈ t.children, c.Everywhere P := by
  cases h
  assumption

/-- Every node of the tree has the children that its kind has. -/
abbrev WellFormed (t : ParseTree) : Prop := t.Everywhere Shape

end ParseTree
end Ecma3
