import Ecma3.Grammar.Inner
import Ecma3.Grammar.Operator
import Ecma3.Token.RegexLiteral

/-!
Expressions, from the loosest production to the tightest. `new` takes a primary expression only, and
member accesses and calls go around it.
-/

namespace Ecma3.Grammar

namespace ParserM

/-- A regular expression whose opening slash is the current lexeme. It is found in the source, and the
cursor moves past what it has beyond that lexeme. -/
def regexLiteral : ParserM ParseTree := do
  let s ← get
  let opening := s.span
  let literal? := do
    let cs ← Text.dropBytes? opening.start s.source
    let length ← Token.RegexLiteral.length? cs
    return cs.take length
  match literal? with
  | none => throw (.unterminatedRegex ⟨opening.start, s.size⟩)
  | some literal =>
    let text := String.ofList literal
    let span : Span := ⟨opening.start, opening.start + Text.byteLength literal⟩
    match s.cursor.skipBytes? (span.stop - opening.stop) with
    | none => throw (.regexOutOfStep span)
    | some cursor =>
      set { s with cursor, current := some ⟨.punctuator .slash, text, span⟩ }
      advance
      return .leaf .regexLiteral text span

end ParserM

namespace Inner
open ParserM

variable (inner : Inner)

/-- One element of an array, or a comma that leaves one out. -/
def arrayItem : ParserM (Turn ParseTree) := do
  match ← token? with
  | some (.punctuator .rightBracket) => return .stop
  | some (.punctuator .comma) =>
    let place := (← currentSpan).start
    advance
    return .more (.group .item ⟨place, place⟩ [])
  | _ =>
    let item := ParseTree.wrap .item (← inner.parse (.assignment true))
    if ← acceptMark .comma then return .more item else return .last item

def array : ParserM ParseTree := do
  let start := (← demandMark .leftBracket).start
  let items ← collect inner.arrayItem inner.bound
  let stop := (← demandMark .rightBracket).stop
  return .group .array ⟨start, stop⟩ items

def propertyName : ParserM ParseTree := do
  match ← token? with
  | some .stringLiteral => leaf .stringLiteral
  | some .decimalLiteral => leaf .decimalLiteral
  | some .hexLiteral => leaf .hexLiteral
  | some t => if isNameLike t then leaf .identifier else unexpected .propertyName
  | none => unexpected .propertyName

def property : ParserM (Turn ParseTree) := do
  if ← seesMark .rightBrace then return .stop
  let name ← propertyName
  _ ← demandMark .colon
  let value ← inner.parse (.assignment true)
  let property := ParseTree.group .namedValue ⟨name.span.start, value.span.stop⟩ [name, value]
  if ← acceptMark .comma then return .more property else return .last property

def object : ParserM ParseTree := do
  let start := (← demandMark .leftBrace).start
  let properties ← collect inner.property inner.bound
  let stop := (← demandMark .rightBrace).stop
  return .group .object ⟨start, stop⟩ properties

def parenthesized : ParserM ParseTree := do
  let start := (← demandMark .leftParen).start
  let content ← inner.expression true
  let stop := (← demandMark .rightParen).stop
  return .group .parenthesized ⟨start, stop⟩ [content]

def primary : ParserM ParseTree := do
  match ← token? with
  | none => unexpected .expression
  | some t =>
    match simpleKind? t with
    | some kind => leaf kind
    | none =>
      match t with
      | .punctuator .slash | .punctuator .slashAssign => regexLiteral
      | .punctuator .leftBracket => inner.array
      | .punctuator .leftBrace => inner.object
      | .punctuator .leftParen => inner.parenthesized
      | .reserved .function => inner.function false
      | _ => unexpected .expression

/-- A primary expression, with as many `new` before it as there are. -/
def memberBase : ParserM ParseTree := do
  if ← seesWord .new then
    let start := (← currentSpan).start
    advance
    enter
    let operand ← thenLeaveIfOk (inner.parse .memberBase)
    return ⟨.new, "new", ⟨start, operand.span.stop⟩, [operand]⟩
  else inner.primary

/-- The name after the point of a member access. -/
def memberName : ParserM ParseTree := do
  match ← token? with
  | some t => if isNameLike t then leaf .identifier else unexpected .propertyName
  | none => unexpected .propertyName

/-- A member access, an index or a call, applied to the tree before it. -/
def suffix (object : ParseTree) : ParserM (Option ParseTree) := do
  match ← token? with
  | some (.punctuator .dot) =>
    advance
    let name ← memberName
    return some (.group .byField ⟨object.span.start, name.span.stop⟩ [object, name])
  | some (.punctuator .leftBracket) =>
    advance
    let index ← inner.expression true
    let stop := (← demandMark .rightBracket).stop
    return some (.group .byIndex ⟨object.span.start, stop⟩ [object, index])
  | some (.punctuator .leftParen) =>
    let arguments ← inner.argumentList (inner.parse (.assignment true))
    return some (.group .call ⟨object.span.start, arguments.span.stop⟩ [object, arguments])
  | _ => return none

def leftHandSide : ParserM ParseTree := do
  let base ← inner.memberBase
  extend inner.suffix inner.bound base

/-- A left-hand side, with `++` or `--` if it follows on the same line. -/
def stepped : ParserM ParseTree := do
  let operand ← inner.leftHandSide
  if ← lineBreakBefore then return operand
  match (← token?).bind postfixKind? with
  | none => return operand
  | some kind =>
    let operator ← currentText
    let stop := (← currentSpan).stop
    advance
    return ⟨kind, operator, ⟨operand.span.start, stop⟩, [operand]⟩

def unary : ParserM ParseTree := do
  match (← token?).bind unaryKind? with
  | none => inner.stepped
  | some kind =>
    let start := (← currentSpan).start
    let operator ← currentText
    advance
    enter
    let operand ← thenLeaveIfOk (inner.parse .unary)
    return ⟨kind, operator, ⟨start, operand.span.stop⟩, [operand]⟩

/-- A binary operator and its right operand, in which only tighter operators stand bare. -/
def binaryStep (allowIn : Bool) (least : Nat) (left : ParseTree) : ParserM (Option ParseTree) := do
  match (← token?).bind (binaryOperator? allowIn) with
  | none => return none
  | some (kind, precedence) =>
    if precedence < least then return none
    let operator ← currentText
    advance
    enter
    let right ← thenLeaveIfOk (inner.parse (.binary allowIn (precedence + 1)))
    return some ⟨kind, operator, ⟨left.span.start, right.span.stop⟩, [left, right]⟩

def binary (allowIn : Bool) (least : Nat) : ParserM ParseTree := do
  let first ← inner.unary
  extend (inner.binaryStep allowIn least) inner.bound first

def conditional (allowIn : Bool) : ParserM ParseTree := do
  let test ← inner.binary allowIn 0
  if ← acceptMark .question then
    let consequent ← inner.parse (.assignment true)
    _ ← demandMark .colon
    let alternate ← inner.parse (.assignment allowIn)
    return ⟨.conditional, "?", ⟨test.span.start, alternate.span.stop⟩, [test, consequent, alternate]⟩
  else return test

/-- A conditional, and if an assignment operator follows, the value assigned to it. -/
def assigned (allowIn : Bool) : ParserM ParseTree := do
  let target ← inner.conditional allowIn
  match (← token?).bind assignmentKind? with
  | none => return target
  | some kind =>
    let operator ← currentText
    advance
    let value ← inner.parse (.assignment allowIn)
    return ⟨kind, operator, ⟨target.span.start, value.span.stop⟩, [target, value]⟩

def assignment (allowIn : Bool) : ParserM ParseTree := do
  enter
  thenLeave (inner.assigned allowIn)

end Inner
end Ecma3.Grammar
