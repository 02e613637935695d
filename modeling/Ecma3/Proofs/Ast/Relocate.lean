import Ecma3.Build.Error
import Ecma3.Proofs.Ast.Property

/-! Syntax trees and errors whose places are moved. Nothing else in them changes. -/
namespace Ecma3

variable {f : Nat → Nat}

@[simp] def Span.relocate (f : Nat → Nat) (span : Span) : Span := ⟨f span.start, f span.stop⟩

mutual

/-- The node with each of its places moved. -/
@[simp] def Node.relocate (f : Nat → Nat) : Node → Node
  | .identifier name isDefinition span => .identifier name isDefinition (span.relocate f)
  | .integer value span => .integer value (span.relocate f)
  | .float value span => .float value (span.relocate f)
  | .string value quote span => .string value quote (span.relocate f)
  | .boolean value span => .boolean value (span.relocate f)
  | .null span => .null (span.relocate f)
  | .regex pattern flags span => .regex pattern flags (span.relocate f)
  | .array elements span => .array (relocateElements f elements) (span.relocate f)
  | .object properties span => .object (relocateProperties f properties) (span.relocate f)
  | .function name params body span => .function name params (body.relocate f) (span.relocate f)
  | .call callee arguments span =>
    .call (callee.relocate f) (relocateNodes f arguments) (span.relocate f)
  | .new callee none span => .new (callee.relocate f) none (span.relocate f)
  | .new callee (some arguments) span =>
    .new (callee.relocate f) (some (relocateNodes f arguments)) (span.relocate f)
  | .memberAccess holder property span =>
    .memberAccess (holder.relocate f) property (span.relocate f)
  | .indexAccess holder index span =>
    .indexAccess (holder.relocate f) (index.relocate f) (span.relocate f)
  | .assign target value span => .assign (target.relocate f) (value.relocate f) (span.relocate f)
  | .assignmentBlock nodes isDeclaration span =>
    .assignmentBlock (relocateNodes f nodes) isDeclaration (span.relocate f)
  | .binary operator left right span =>
    .binary operator (left.relocate f) (right.relocate f) (span.relocate f)
  | .unsignedRightShift left right span =>
    .unsignedRightShift (left.relocate f) (right.relocate f) (span.relocate f)
  | .unary operator operand span => .unary operator (operand.relocate f) (span.relocate f)
  | .logical operator left right span =>
    .logical operator (left.relocate f) (right.relocate f) (span.relocate f)
  | .strictCompare operator left right span =>
    .strictCompare operator (left.relocate f) (right.relocate f) (span.relocate f)
  | .instanceOf value constructor span =>
    .instanceOf (value.relocate f) (constructor.relocate f) (span.relocate f)
  | .membership property holder span =>
    .membership (property.relocate f) (holder.relocate f) (span.relocate f)
  | .typeOf operand span => .typeOf (operand.relocate f) (span.relocate f)
  | .void operand span => .void (operand.relocate f) (span.relocate f)
  | .delete operand span => .delete (operand.relocate f) (span.relocate f)
  | .postfixStep operator target span =>
    .postfixStep operator (target.relocate f) (span.relocate f)
  | .«return» value span => .«return» (value.relocate f) (span.relocate f)
  | .«if» test consequent none isTernary label span =>
    .«if» (test.relocate f) (consequent.relocate f) none isTernary label (span.relocate f)
  | .«if» test consequent (some alternate) isTernary label span =>
    .«if» (test.relocate f) (consequent.relocate f) (some (alternate.relocate f)) isTernary label
      (span.relocate f)
  | .switch discriminant cases default label span =>
    .switch (discriminant.relocate f) (relocateCases f cases) (default.relocate f) label
      (span.relocate f)
  | .«while» test body style label span =>
    .«while» (test.relocate f) (body.relocate f) style label (span.relocate f)
  | .forStep init test increment body label span =>
    .forStep (init.relocate f) (test.relocate f) (increment.relocate f) (body.relocate f) label
      (span.relocate f)
  | .forIn target holder body label span =>
    .forIn (target.relocate f) (holder.relocate f) (body.relocate f) label (span.relocate f)
  | .«break» label span => .«break» label (span.relocate f)
  | .«continue» label span => .«continue» label (span.relocate f)
  | .«try» body handler cleanup label span =>
    .«try» (body.relocate f) (relocateHandler f handler) (relocateCleanup f cleanup) label
      (span.relocate f)
  | .block content => .block (content.relocate f)
  | .«with» holder body label span =>
    .«with» (holder.relocate f) (body.relocate f) label (span.relocate f)
  | .«throw» value span => .«throw» (value.relocate f) (span.relocate f)

@[simp] def Block.relocate (f : Nat → Nat) : Block → Block
  | ⟨statements, label, span⟩ => ⟨relocateNodes f statements, label, span.relocate f⟩

@[simp] def SwitchCase.relocate (f : Nat → Nat) : SwitchCase → SwitchCase
  | ⟨test, body, span⟩ => ⟨test.relocate f, body.relocate f, span.relocate f⟩

@[simp] def Catch.relocate (f : Nat → Nat) : Catch → Catch
  | ⟨binding, body, span⟩ => ⟨binding, body.relocate f, span.relocate f⟩

@[simp] def Property.relocate (f : Nat → Nat) : Property → Property
  | ⟨name, value⟩ => ⟨name, value.relocate f⟩

def relocateNodes (f : Nat → Nat) : List Node → List Node
  | [] => []
  | node :: rest => node.relocate f :: relocateNodes f rest

def relocateElements (f : Nat → Nat) : List (Option Node) → List (Option Node)
  | [] => []
  | none :: rest => none :: relocateElements f rest
  | some node :: rest => some (node.relocate f) :: relocateElements f rest

def relocateProperties (f : Nat → Nat) : List Property → List Property
  | [] => []
  | p :: rest => p.relocate f :: relocateProperties f rest

def relocateCases (f : Nat → Nat) : List SwitchCase → List SwitchCase
  | [] => []
  | c :: rest => c.relocate f :: relocateCases f rest

def relocateHandler (f : Nat → Nat) : Option Catch → Option Catch
  | none => none
  | some handler => some (handler.relocate f)

def relocateCleanup (f : Nat → Nat) : Option Block → Option Block
  | none => none
  | some body => some (body.relocate f)

end

@[simp] theorem relocateNodes_eq_map (nodes : List Node) :
    relocateNodes f nodes = nodes.map (Node.relocate f) := by
  induction nodes with
  | nil => rfl
  | cons node rest ih => simp [relocateNodes, ih]

@[simp] theorem relocateElements_eq_map (elements : List (Option Node)) :
    relocateElements f elements = elements.map (Option.map (Node.relocate f)) := by
  induction elements with
  | nil => rfl
  | cons element rest ih => cases element <;> simp [relocateElements, ih]

@[simp] theorem relocateProperties_eq_map (properties : List Property) :
    relocateProperties f properties = properties.map (Property.relocate f) := by
  induction properties with
  | nil => rfl
  | cons p rest ih => simp [relocateProperties, ih]

@[simp] theorem relocateCases_eq_map (cases : List SwitchCase) :
    relocateCases f cases = cases.map (SwitchCase.relocate f) := by
  induction cases with
  | nil => rfl
  | cons c rest ih => simp [relocateCases, ih]

@[simp] theorem relocateHandler_eq_map (handler : Option Catch) :
    relocateHandler f handler = handler.map (Catch.relocate f) := by
  cases handler <;> rfl

@[simp] theorem relocateCleanup_eq_map (cleanup : Option Block) :
    relocateCleanup f cleanup = cleanup.map (Block.relocate f) := by
  cases cleanup <;> rfl

namespace Node

variable {test consequent : Node} {span : Span}

@[simp] theorem relocate_if (alternate : Option Node) (isTernary : Bool) (label : Option String) :
    («if» test consequent alternate isTernary label span).relocate f =
      «if» (test.relocate f) (consequent.relocate f) (alternate.map (relocate f)) isTernary label
        (span.relocate f) := by
  cases alternate <;> simp

/-- The node without its places. -/
def spanless : Node → Node := relocate fun _ => 0

end Node

namespace Property

/-- A value that is moved takes the same place among the others. -/
theorem map_relocate_put (name : String) (value : Node) (properties : List Property) :
    (put name value properties).map (relocate f) =
      put name (value.relocate f) (properties.map (relocate f)) := by
  induction properties with
  | nil => simp [put]
  | cons p rest ih =>
    obtain ⟨other, old⟩ := p
    simp only [put, List.map_cons, relocate]
    split <;> simp [ih]

end Property

namespace Build.BuildError

/-- The error with its place moved. -/
@[simp] def relocate (f : Nat → Nat) : BuildError → BuildError
  | unsupportedConstruct kind span => unsupportedConstruct kind (span.relocate f)
  | invalidLabelTarget label kind span => invalidLabelTarget label kind (span.relocate f)
  | invalidLiteral what text span => invalidLiteral what text (span.relocate f)
  | malformedNode kind missing span => malformedNode kind missing (span.relocate f)
  | nestingTooDeep limit span => nestingTooDeep limit (span.relocate f)

/-- The error without its place. -/
def spanless : BuildError → BuildError := relocate fun _ => 0

end Build.BuildError
end Ecma3
