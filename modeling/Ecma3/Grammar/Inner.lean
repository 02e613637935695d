import Ecma3.Grammar.Session

/-!
Productions refer to each other in circles. Each is written here against parsers for the constructs
that stand inside it, and the circle is closed by a bound: whoever goes one construct further in has
passed a token, so the tokens that are left bound how far that can go.
-/

namespace Ecma3.Grammar

/-- The productions that others contain. `allowIn` tells whether the word `in` is an operator. -/
inductive Goal where
  | statement
  | assignment (allowIn : Bool)
  /-- Binary operators that bind at least this tightly. -/
  | binary (allowIn : Bool) (least : Nat)
  | unary
  | memberBase
deriving DecidableEq, Repr

/-- Parsers for what stands inside a construct, and a bound on how often a part can be repeated. -/
structure Inner where
  bound : Nat
  parse : Goal → ParserM ParseTree

namespace Inner
open ParserM

variable (inner : Inner)

/-- Statements up to a token that ends them or to the end of the source. A semicolon between them
stands for no statement. -/
def statements (ends : Token → Bool) : ParserM (List ParseTree) :=
  collect (do
    match ← token? with
    | none => return .stop
    | some t =>
      if ends t then return .stop
      else if ← acceptMark .semicolon then return .skip
      else return .more (← inner.parse .statement)) inner.bound

/-- One element, and the others that follow it after commas. -/
def commaSeparated (element : ParserM ParseTree) : ParserM (ParseTree × List ParseTree) := do
  let first ← element
  let others ← collect (do
    if ← acceptMark .comma then return .more (← element) else return .stop) inner.bound
  return (first, others)

/-- Elements between parentheses, or none. -/
def argumentList (element : ParserM ParseTree) : ParserM ParseTree := do
  let start := (← demandMark .leftParen).start
  let elements ← if ← seesMark .rightParen then pure [] else do
    let (first, others) ← inner.commaSeparated element
    pure (first :: others)
  _ ← demandMark .rightParen
  return .group .arguments (← spanFrom start) elements

def identifier : ParserM ParseTree := do
  if ← sees .identifier then leaf .identifier else unexpected .identifier

/-- What ends the statements of a block or of a clause of `switch`. -/
def endsStatements : Token → Bool
  | .punctuator .rightBrace | .reserved .«case» | .reserved .«default» => true
  | _ => false

def block : ParserM ParseTree := do
  let start := (← demandMark .leftBrace).start
  let statements ← inner.statements endsStatements
  _ ← demandMark .rightBrace
  return .group .block (← spanFrom start) statements

/-- Function declarations, which have a name, and function expressions, which may have one. The
children are the name, the parameters and the body. -/
def function (needsName : Bool) : ParserM ParseTree := do
  let start := (← demandWord .function).start
  let name ←
    if ← sees .identifier then pure [← leaf .identifier]
    else if needsName then unexpected .functionName
    else pure []
  let parameters ← inner.argumentList identifier
  let body ← inner.block
  return ⟨.function, "function", ← spanFrom start, name ++ [parameters, body]⟩

/-- Operands separated by commas, or a single operand as it is. -/
def expressionOf (operand : ParserM ParseTree) : ParserM ParseTree := do
  let (first, others) ← inner.commaSeparated operand
  if others.isEmpty then return first
  else return .group .comma (← spanFrom first.span.start) (first :: others)

/-- An expression that begins after the construct around it does. -/
def expression (allowIn : Bool) : ParserM ParseTree :=
  inner.expressionOf (inner.parse (.assignment allowIn))

end Inner
end Ecma3.Grammar
