import Ecma3.ParseTree.Basic

/-!
Why a parse tree has no syntax tree, and the wording of each reason.
-/

namespace Ecma3.Build

/-- A child that a parse tree node must have. -/
inductive Part where
  | expression
  | label
  | statement
  | operand
  | firstOperand
  | secondOperand
  | test
  | consequent
  | alternate
  | value
  | declarator
  | target
  | propertyName
  | propertyValue
  | functionName
  | parameterList
  | body
  | callee
  | object
  | member
  | discriminant
  | caseTest
  | onlyDefault
  | protectedBlock
  | catchBinding
  | catchBlock
  | finallyBlock
  | loopHead
  | loopBody
  | initClause
  | testClause
  | incrementClause
deriving DecidableEq, Repr

def Part.description : Part → String
  | expression => "expression"
  | label => "label"
  | statement => "statement"
  | operand => "operand"
  | firstOperand => "first operand"
  | secondOperand => "second operand"
  | test => "test"
  | consequent => "consequent"
  | alternate => "alternate"
  | value => "value"
  | declarator => "declarator"
  | target => "target"
  | propertyName => "property name"
  | propertyValue => "property value"
  | functionName => "name"
  | parameterList => "parameter list"
  | body => "body"
  | callee => "callee"
  | object => "object"
  | member => "member"
  | discriminant => "discriminant"
  | caseTest => "case test"
  | onlyDefault => "at most one default clause"
  | protectedBlock => "protected block"
  | catchBinding => "catch binding"
  | catchBlock => "catch block"
  | finallyBlock => "finally block"
  | loopHead => "loop head"
  | loopBody => "loop body"
  | initClause => "init clause"
  | testClause => "test clause"
  | incrementClause => "increment clause"

/-- The kinds of literals whose text can be wrong. -/
inductive LiteralClass where
  | number
  | string
  | regex
deriving DecidableEq, Repr

def LiteralClass.name : LiteralClass → String
  | number => "number"
  | string => "string"
  | regex => "regex"

inductive BuildError where
  /-- A kind of node that stands for nothing in its place. -/
  | unsupportedConstruct (kind : Kind) (span : Span)
  /-- A label before something that can have none. -/
  | invalidLabelTarget (label : String) (kind : Kind) (span : Span)
  | invalidLiteral (what : LiteralClass) (text : String) (span : Span)
  /-- A node without a child that its kind must have. -/
  | malformedNode (kind : Kind) (missing : Part) (span : Span)
  | nestingTooDeep (limit : Nat) (span : Span)
deriving DecidableEq, Repr

namespace BuildError

def span : BuildError → Span
  | unsupportedConstruct _ span => span
  | invalidLabelTarget _ _ span => span
  | invalidLiteral _ _ span => span
  | malformedNode _ _ span => span
  | nestingTooDeep _ span => span

def message : BuildError → String
  | unsupportedConstruct kind _ => "Unsupported construct: " ++ kind.name
  | invalidLabelTarget label kind _ => "Label '" ++ label ++ "' cannot be attached to " ++ kind.name
  | invalidLiteral what text _ => "Invalid " ++ what.name ++ " literal: " ++ text
  | malformedNode kind missing _ =>
    "Malformed " ++ kind.name ++ " node: missing " ++ missing.description
  | nestingTooDeep limit _ => "Nesting deeper than " ++ toString limit ++ " levels"

end BuildError
end Ecma3.Build
