import Ecma3.Build.Program
import Ecma3.Proofs.ParseTree.Nodes
import Ecma3.Proofs.ParseTree.Shape

/-!
Which construction builds a tree of which kind. Kinds that are built alike are taken together here, so
that what is proved of all constructions has one case for each of them, with what its kinds have in
common, and another kind means another name in one proof.
-/
namespace Ecma3

namespace ParseTree

theorem isAccess_cases {kind : Kind} (h : isAccess kind = true) :
    kind = .byField ∨ kind = .byIndex := by
  simpa [isAccess] using h

theorem isAccess_strength {kind : Kind} (h : isAccess kind = true) : kind.strength? = some 15 := by
  rcases isAccess_cases h with rfl | rfl <;> rfl

end ParseTree

namespace Build

open Log (MonadLog)

/-- What makes a node of a tree from what makes nodes of the trees inside, wherever that can fail. -/
abbrev Construction :=
  ∀ {m : Type → Type} [Monad m] [MonadExcept BuildError m] [MonadLog m],
    (ParseTree → Option String → m Node) → ParseTree → Option String → m Node

/-- Trees of the kind are built by the construction. -/
inductive Constructs (kind : Kind) : Construction → Prop where
  | grouping (hk : kind = .expression ∨ kind = .parenthesized) : Constructs kind grouping
  | labelled (hk : kind = .labelled) :
    Constructs kind fun build tree label => labelled build tree label
  | block (hk : kind = .block) :
    Constructs kind fun build tree label => .block <$> block build tree label
  | var (hk : kind = .var) : Constructs kind fun build tree _ => var build tree
  | sequence (hk : kind = .comma) : Constructs kind fun build tree _ => sequence build tree
  | object (hk : kind = .object) : Constructs kind fun build tree _ => object build tree
  | array (hk : kind = .array) : Constructs kind fun build tree _ => array build tree
  | function (hk : kind = .function) : Constructs kind fun build tree _ => function build tree
  | call (hk : kind = .call) : Constructs kind fun build tree _ => call build tree
  | new (hk : kind = .new) : Constructs kind fun build tree _ => new build tree
  | access (hk : ParseTree.isAccess kind = true) :
    Constructs kind fun build tree _ => access build tree
  | conditional (hk : kind = .«if» ∨ kind = .conditional) : Constructs kind conditional
  | switch (hk : kind = .switch) : Constructs kind switch
  | tryStatement (hk : kind = .«try») : Constructs kind tryStatement
  | whileLoop (hk : kind = .«while» ∨ kind = .«do») : Constructs kind whileLoop
  | forLoop (hk : kind = .«for») : Constructs kind forLoop
  | withStatement (hk : kind = .«with») : Constructs kind withStatement
  | jump (hk : kind = .«return» ∨ kind = .«throw» ∨ kind = .«break» ∨ kind = .«continue») :
    Constructs kind fun build tree _ => jump build tree
  | leaf (hk : kind.isAtom = true) (hdebugger : kind ≠ .debugger) :
    Constructs kind fun _ tree _ => leaf tree
  | assignment (hk : kind.strength? = some 1) :
    Constructs kind fun build tree _ => assignment build tree
  | binary (hk : (Grammar.precedence? kind).isSome = true) :
    Constructs kind fun build tree _ => binary build tree
  | step (hk : kind = .increment ∨ kind = .decrement ∨ kind = .postIncrement ∨
      kind = .postDecrement) : Constructs kind fun build tree _ => step build tree
  | unary (hk : kind = .bitNot ∨ kind = .logicalNot ∨ kind = .negate ∨ kind = .plus ∨
      kind = .typeOf ∨ kind = .void ∨ kind = .delete) :
    Constructs kind fun build tree _ => unary build tree
  | unsupported (hk : kind = .debugger ∨ kind.strength? = none ∧ kind.isStatement = false) :
    Constructs kind fun _ tree _ => unsupported tree

/-- There is a construction for each kind. -/
theorem exists_constructs (kind : Kind) : ∃ c : Construction, Constructs kind @c ∧
    ∀ {m : Type → Type} [Monad m] [MonadExcept BuildError m] [MonadLog m]
      {build : ParseTree → Option String → m Node} {tree : ParseTree} {label : Option String},
      tree.kind = kind → construct build tree label = c build tree label := by
  cases kind with
  | expression | parenthesized =>
    exact ⟨_, .grouping (by decide), fun h => by simp only [construct, h]⟩
  | labelled => exact ⟨_, .labelled rfl, fun h => by simp only [construct, h]⟩
  | block => exact ⟨_, .block rfl, fun h => by simp only [construct, h]⟩
  | var => exact ⟨_, .var rfl, fun h => by simp only [construct, h]⟩
  | comma => exact ⟨_, .sequence rfl, fun h => by simp only [construct, h]⟩
  | object => exact ⟨_, .object rfl, fun h => by simp only [construct, h]⟩
  | array => exact ⟨_, .array rfl, fun h => by simp only [construct, h]⟩
  | function => exact ⟨_, .function rfl, fun h => by simp only [construct, h]⟩
  | call => exact ⟨_, .call rfl, fun h => by simp only [construct, h]⟩
  | new => exact ⟨_, .new rfl, fun h => by simp only [construct, h]⟩
  | byField | byIndex => exact ⟨_, .access rfl, fun h => by simp only [construct, h]⟩
  | «if» | conditional => exact ⟨_, .conditional (by decide), fun h => by simp only [construct, h]⟩
  | switch => exact ⟨_, .switch rfl, fun h => by simp only [construct, h]⟩
  | «try» => exact ⟨_, .tryStatement rfl, fun h => by simp only [construct, h]⟩
  | «while» | «do» => exact ⟨_, .whileLoop (by decide), fun h => by simp only [construct, h]⟩
  | «for» => exact ⟨_, .forLoop rfl, fun h => by simp only [construct, h]⟩
  | «with» => exact ⟨_, .withStatement rfl, fun h => by simp only [construct, h]⟩
  | «return» | «throw» | «break» | «continue» =>
    exact ⟨_, .jump (by decide), fun h => by simp only [construct, h]⟩
  | «this» | identifier | decimalLiteral | hexLiteral | stringLiteral | regexLiteral | nullLiteral
  | trueLiteral | falseLiteral =>
    exact ⟨_, .leaf rfl (by decide), fun h => by simp only [construct, h]⟩
  | assign | addAssign | subtractAssign | multiplyAssign | divideAssign | moduloAssign
  | shiftLeftAssign | shiftRightAssign | shiftRightUnsignedAssign | bitAndAssign | bitOrAssign
  | bitXorAssign => exact ⟨_, .assignment rfl, fun h => by simp only [construct, h]⟩
  | add | subtract | multiply | divide | modulo | equal | notEqual | less | greater | lessEqual
  | greaterEqual | shiftLeft | shiftRight | shiftRightUnsigned | bitAnd | bitOr | bitXor
  | logicalAnd | logicalOr | same | notSame | «in» | instanceOf =>
    exact ⟨_, .binary rfl, fun h => by simp only [construct, h]⟩
  | increment | decrement | postIncrement | postDecrement =>
    exact ⟨_, .step (by decide), fun h => by simp only [construct, h]⟩
  | bitNot | logicalNot | negate | plus | typeOf | void | delete =>
    exact ⟨_, .unary (by decide), fun h => by simp only [construct, h]⟩
  | unit | namedValue | item | arguments | «case» | «default» | «catch» | «finally» | forStep
  | forIn | debugger =>
    exact ⟨_, .unsupported (by decide), fun h => by simp only [construct, h]⟩

theorem construct_atom {m : Type → Type} [Monad m] [MonadExcept BuildError m] [MonadLog m]
    {build : ParseTree → Option String → m Node} {tree : ParseTree} {label : Option String}
    (hatom : tree.kind.isAtom = true) (hdebugger : tree.kind ≠ .debugger) :
    construct build tree label = leaf tree := by
  rw [construct]
  cases hk : tree.kind <;> simp_all [Kind.isAtom]

/-! The operators of one construction hold together alike. -/

variable {kind : Kind}

theorem strength?_of_step (h : kind = .increment ∨ kind = .decrement ∨ kind = .postIncrement ∨
      kind = .postDecrement) : kind.strength? = some 13 ∨ kind.strength? = some 14 := by
  rcases h with rfl | rfl | rfl | rfl <;> decide

theorem strength?_of_unary (h : kind = .bitNot ∨ kind = .logicalNot ∨ kind = .negate ∨
      kind = .plus ∨ kind = .typeOf ∨ kind = .void ∨ kind = .delete) : kind.strength? = some 13 := by
  rcases h with rfl | rfl | rfl | rfl | rfl | rfl | rfl <;> rfl

end Build
end Ecma3
