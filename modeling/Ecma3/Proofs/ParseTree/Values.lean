import Ecma3.Build.Literal
import Ecma3.Proofs.ParseTree.Nodes

/-! The names and values that a parse tree stands for: those that are written in it, and those
that stand for something left out. -/
namespace Ecma3

/-- What the names and literals of a tree are for, which depends on where the tree stands. -/
inductive Role where
  /-- A use of a name, or a value. -/
  | use
  /-- A declarator of `var`, or the name that it declares. -/
  | declarator
  /-- The name of a property, a parameter, a function, a caught exception or a label. -/
  | name
deriving DecidableEq, Repr

/-- The role of a child among so many children of a node of this kind. -/
def Kind.childRole (kind : Kind) (count i : Nat) : Role :=
  match kind with
  | .var => .declarator
  | .byField => if i = 1 then .name else .use
  | .namedValue | .labelled | .«catch» => if i = 0 then .name else .use
  | .function => if i + 1 = count then .use else .name
  | .«break» | .«continue» => .name
  | _ => .use

/-- Something may be supplied for what a node of this kind leaves out. -/
def Kind.isSupplied : Kind → Bool
  | .«return» | .forStep | .switch | .increment | .decrement => true
  | _ => false

/-- A node of this kind may have a value of its own. -/
def Kind.hasValue : Kind → Bool
  | .«this» | .identifier | .decimalLiteral | .hexLiteral | .stringLiteral | .regexLiteral
  | .nullLiteral | .trueLiteral | .falseLiteral => true
  | kind => kind.isSupplied

/-- A node of this kind has the values of its parts, all of which are used. -/
def Kind.isPlain : Kind → Bool
  | .var | .byField | .namedValue | .labelled | .«catch» | .function | .«break»
  | .«continue» => false
  | kind => !kind.hasValue

/-- The role of a child of a node that has this role itself. -/
def Role.child (role : Role) (kind : Kind) (count i : Nat) : Role :=
  match role with
  | .use => kind.childRole count i
  | .declarator => if kind = .assign ∧ i = 0 then .declarator else kind.childRole count i
  | .name => .name

namespace ParseTree
open Build

variable {kind : Kind} {text : String} {span : Span} {children : List ParseTree} {t : ParseTree}
  {role : Role} {roles : Nat → Role}

mutual

/-- All nodes of the tree with their roles, each before its children. -/
def placed (role : Role) : ParseTree → List (Role × ParseTree)
  | ⟨kind, text, span, children⟩ =>
    (role, ⟨kind, text, span, children⟩) :: placedFrom (role.child kind children.length) 0 children

def placedFrom (roles : Nat → Role) (i : Nat) : List ParseTree → List (Role × ParseTree)
  | [] => []
  | t :: ts => placed (roles i) t ++ placedFrom roles (i + 1) ts

end

/-- What a name or literal is read as. -/
def value (role : Role) (t : ParseTree) : List Node :=
  if role = .name then []
  else match t.kind with
    | .identifier => [.identifier t.text (role = .declarator) t.span]
    | .«this» => [.identifier "this" false t.span]
    | .decimalLiteral => (Literal.decimal? t.text t.span).toList
    | .hexLiteral => (Literal.hex? t.text t.span).toList
    | .stringLiteral => (Literal.string? t.text t.span).toList
    | .regexLiteral => (Literal.regex? t.text t.span).toList
    | .nullLiteral => [.null t.span]
    | .trueLiteral => [.boolean true t.span]
    | .falseLiteral => [.boolean false t.span]
    | _ => []

/-- What stands for an empty clause in the head of a loop. -/
def suppliedFor (missing : Span → Node) (clause : ParseTree) : List Node :=
  if clause.kind = .expression ∧ clause.children = [] then [missing clause.span] else []

/-- What stands for something that a node leaves out: the value of a `return`, the clauses of a
loop, the default of a `switch`, and the one that is added or subtracted. -/
def supplied (t : ParseTree) : List Node :=
  match t.kind, t.children with
  | .«return», [] => [.null t.span]
  | .forStep, [init, test, update] =>
    suppliedFor .null init ++ suppliedFor (.boolean true) test ++ suppliedFor .null update
  | .switch, children => if children.any (·.kind == .«default») then [] else [.null t.span]
  | .increment, _ => [.integer 1 t.span]
  | .decrement, _ => [.integer 1 t.span]
  | _, _ => []

/-- The names and values of the tree. -/
def values (role : Role) (t : ParseTree) : List Node :=
  (t.placed role).flatMap fun (role, u) => u.value role ++ u.supplied

def valuesFrom (roles : Nat → Role) (i : Nat) (ts : List ParseTree) : List Node :=
  (placedFrom roles i ts).flatMap fun (role, u) => u.value role ++ u.supplied

theorem values_eq (role : Role) (t : ParseTree) : t.values role =
    t.value role ++ t.supplied ++
      valuesFrom (role.child t.kind t.children.length) 0 t.children := by
  cases t
  simp only [values, placed, List.flatMap_cons, valuesFrom]

@[simp] theorem valuesFrom_nil (i : Nat) : valuesFrom roles i [] = [] := rfl

@[simp] theorem valuesFrom_cons (i : Nat) (t : ParseTree) (ts : List ParseTree) :
    valuesFrom roles i (t :: ts) = t.values (roles i) ++ valuesFrom roles (i + 1) ts := by
  simp [valuesFrom, placedFrom, values]

theorem valuesFrom_of_role {i : Nat} {ts : List ParseTree} (h : ∀ j, i ≤ j → roles j = role) :
    valuesFrom roles i ts = ts.flatMap (values role) := by
  induction ts generalizing i with
  | nil => rfl
  | cons t ts ih =>
    rw [valuesFrom_cons, h i (Nat.le_refl i), ih fun j hj => h j (by omega), List.flatMap_cons]

theorem values_use (h : t.kind.hasValue = false) :
    t.values .use = valuesFrom (t.kind.childRole t.children.length) 0 t.children := by
  have hvalue : t.value .use = [] := by
    unfold value
    cases hk : t.kind <;> simp_all [Kind.hasValue]
  have hsupplied : t.supplied = [] := by
    unfold supplied
    cases hk : t.kind <;> simp_all [Kind.hasValue, Kind.isSupplied]
  rw [values_eq, hvalue, hsupplied]
  rfl

/-- A plain tree has the values of its parts. -/
theorem values_of_isPlain (h : t.kind.isPlain = true) :
    t.values .use = t.children.flatMap (values .use) := by
  have hplain : t.kind.hasValue = false ∧ ∀ n i, t.kind.childRole n i = .use := by
    cases hk : t.kind <;>
      simp_all [Kind.isPlain, Kind.hasValue, Kind.isSupplied, Kind.childRole]
  rw [values_use hplain.1, valuesFrom_of_role fun i _ => hplain.2 _ i]

/-- Where something may be supplied the parts are all used too. -/
theorem values_of_isSupplied (h : t.kind.isSupplied = true) :
    t.values .use = t.supplied ++ t.children.flatMap (values .use) := by
  have hparts : t.value .use = [] ∧ ∀ i, Role.use.child t.kind t.children.length i = .use := by
    unfold value
    cases hk : t.kind <;> simp_all [Kind.isSupplied, Role.child, Kind.childRole]
  rw [values_eq, hparts.1, valuesFrom_of_role fun i _ => hparts.2 i, List.nil_append]

end ParseTree
end Ecma3
