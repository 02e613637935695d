import Ecma3.Grammar.Expression

/-!
Statements. An expression that is a statement, or a clause of a `for` head, is wrapped in an
`expression` node.
-/

namespace Ecma3.Grammar.Inner
open ParserM

variable (inner : Inner)

/-- The expression between the parentheses after a word such as `if`; they leave no node. -/
def condition : ParserM ParseTree := do
  _ ← demandMark .leftParen
  let expression ← inner.expression true
  _ ← demandMark .rightParen
  return expression

def declarator (allowIn : Bool) : ParserM ParseTree := do
  let name ← identifier
  if ← seesMark .assign then
    let operator ← currentText
    advance
    let value ← inner.parse (.assignment allowIn)
    return ⟨.assign, operator, ⟨name.span.start, value.span.stop⟩, [name, value]⟩
  else return name

def declarations (allowIn : Bool) : ParserM ParseTree := do
  let start := (← demandWord .var).start
  let (first, others) ← inner.commaSeparated (inner.declarator allowIn)
  return ⟨.var, "var", ← spanFrom start, first :: others⟩

def varStatement : ParserM ParseTree := do
  let declarations ← inner.declarations true
  endStatement
  return declarations

def ifStatement : ParserM ParseTree := do
  let start := (← demandWord .«if»).start
  let test ← inner.condition
  let consequent ← inner.parse .statement
  let alternate ← if ← acceptWord .«else» then pure [← inner.parse .statement] else pure []
  return ⟨.«if», "if", ← spanFrom start, test :: consequent :: alternate⟩

def doStatement : ParserM ParseTree := do
  let start := (← demandWord .«do»).start
  let body ← inner.parse .statement
  _ ← demandWord .«while»
  let test ← inner.condition
  let span ← spanFrom start
  _ ← acceptMark .semicolon
  return ⟨.«do», "do", span, [body, test]⟩

def whileStatement : ParserM ParseTree := do
  let start := (← demandWord .«while»).start
  let test ← inner.condition
  let body ← inner.parse .statement
  return ⟨.«while», "while", ← spanFrom start, [test, body]⟩

/-- A clause of a `for` head that is left out. -/
def emptyClause : ParserM ParseTree := do
  let place := (← currentSpan).start
  return .group .expression ⟨place, place⟩ []

/-- A clause of a `for` head that `last` follows. -/
def clauseBefore (last : Punctuator) : ParserM ParseTree := do
  if ← seesMark last then emptyClause
  else return .wrap .expression (← inner.expression true)

/-- The head of a counting loop, from its first semicolon on. -/
def stepHead (start : Nat) (init : Option ParseTree) : ParserM ParseTree := do
  let init ← match init with
    | some init => pure (.wrap .expression init)
    | none => emptyClause
  _ ← demandMark .semicolon
  let test ← inner.clauseBefore .semicolon
  _ ← demandMark .semicolon
  let update ← inner.clauseBefore .rightParen
  return .group .forStep (← spanFrom start) [init, test, update]

/-- The head of a loop over the properties of an object, from the word `in` on. -/
def inHead (start : Nat) (target : ParseTree) : ParserM ParseTree := do
  if target.kind = .var && target.children.length ≠ 1 then unexpected (.punctuator .semicolon)
  advance
  let object ← inner.expression true
  return .group .forIn (← spanFrom start) [.wrap .expression target, .wrap .expression object]

def forHead : ParserM ParseTree := do
  let start := (← currentSpan).start
  let first ← match ← token? with
    | some (.punctuator .semicolon) => pure none
    | some (.reserved .var) => some <$> inner.declarations false
    | _ => some <$> inner.expression false
  match first with
  | none => inner.stepHead start none
  | some target =>
    if ← seesWord .«in» then inner.inHead start target else inner.stepHead start (some target)

def forStatement : ParserM ParseTree := do
  let start := (← demandWord .«for»).start
  _ ← demandMark .leftParen
  let head ← inner.forHead
  _ ← demandMark .rightParen
  let body ← inner.parse .statement
  return ⟨.«for», "for", ← spanFrom start, [head, body]⟩

/-- `break` and `continue`, with a label if one follows on the same line. -/
def jumpStatement (kind : Kind) : ParserM ParseTree := do
  let start := (← currentSpan).start
  let keyword ← currentText
  advance
  let s ← get
  let label ←
    if s.token? = some .identifier && !s.lineBreakBefore then pure [← leaf .identifier] else pure []
  let span ← spanFrom start
  endStatement
  return ⟨kind, keyword, span, label⟩

/-- `return`, with a value if one follows on the same line. -/
def returnStatement : ParserM ParseTree := do
  let start := (← demandWord .«return»).start
  let s ← get
  let ended := s.lineBreakBefore || s.current.isNone ||
    s.token? = some (.punctuator .semicolon) || s.token? = some (.punctuator .rightBrace)
  let value ← if ended then pure [] else pure [← inner.expression true]
  let span ← spanFrom start
  endStatement
  return ⟨.«return», "return", span, value⟩

def throwStatement : ParserM ParseTree := do
  let start := (← demandWord .«throw»).start
  if ← lineBreakBefore then unexpected .thrownExpression
  let value ← inner.expression true
  let span ← spanFrom start
  endStatement
  return ⟨.«throw», "throw", span, [value]⟩

def withStatement : ParserM ParseTree := do
  let start := (← demandWord .«with»).start
  let object ← inner.condition
  let body ← inner.parse .statement
  return ⟨.«with», "with", ← spanFrom start, [object, body]⟩

def caseClause : ParserM ParseTree := do
  let start := (← demandWord .«case»).start
  let test ← inner.expression true
  _ ← demandMark .colon
  let body ← inner.statements endsStatements
  return ⟨.«case», "case", ← spanFrom start, test :: body⟩

def defaultClause : ParserM ParseTree := do
  let start := (← demandWord .«default»).start
  _ ← demandMark .colon
  let body ← inner.statements endsStatements
  return ⟨.«default», "default", ← spanFrom start, body⟩

/-- The clauses of a `switch`, at most one of which is the default. -/
def clauses (hasDefault : Bool) : Nat → ParserM (List ParseTree)
  | 0 => throw .endless
  | bound + 1 => do
    match ← token? with
    | some (.reserved .«case») => return (← inner.caseClause) :: (← clauses hasDefault bound)
    | some (.reserved .«default») =>
      if hasDefault then unexpected .clauseAfterDefault
      else return (← inner.defaultClause) :: (← clauses true bound)
    | _ => return []

def switchStatement : ParserM ParseTree := do
  let start := (← demandWord .switch).start
  let discriminant ← inner.condition
  _ ← demandMark .leftBrace
  let clauses ← inner.clauses false inner.bound
  _ ← demandMark .rightBrace
  return ⟨.switch, "switch", ← spanFrom start, discriminant :: clauses⟩

def catchClause : ParserM ParseTree := do
  let start := (← demandWord .«catch»).start
  _ ← demandMark .leftParen
  let binding ← identifier
  _ ← demandMark .rightParen
  let body ← inner.block
  return ⟨.«catch», "catch", ← spanFrom start, [binding, body]⟩

def finallyClause : ParserM ParseTree := do
  let start := (← demandWord .«finally»).start
  let body ← inner.block
  return ⟨.«finally», "finally", ← spanFrom start, [body]⟩

def tryStatement : ParserM ParseTree := do
  let start := (← demandWord .«try»).start
  let body ← inner.block
  let handler ← if ← seesWord .«catch» then pure [← inner.catchClause] else pure []
  let cleanup ← if ← seesWord .«finally» then pure [← inner.finallyClause] else pure []
  if handler.isEmpty && cleanup.isEmpty then unexpected .handler
  return ⟨.«try», "try", ← spanFrom start, body :: handler ++ cleanup⟩

/-- An expression, or a labelled statement if the expression is a lone name before a colon. -/
def expressionStatement : ParserM ParseTree := do
  let expression ← inner.expressionOf (inner.assignment true)
  if expression.kind = .identifier && (← seesMark .colon) then
    advance
    let body ← inner.parse .statement
    return .group .labelled ⟨expression.span.start, body.span.stop⟩ [expression, body]
  else
    endStatement
    return .wrap .expression expression

/-- A semicolon where a statement is needed. -/
def emptyStatement : ParserM ParseTree := do
  let span ← currentSpan
  advance
  return .group .block span []

def debuggerStatement : ParserM ParseTree := do
  let node ← leaf .debugger
  endStatement
  return node

/-- Statements that come back up from their level even if they fail. -/
def longStatement : Option Token → ParserM ParseTree
  | some (.punctuator .leftBrace) => inner.block
  | some (.reserved .var) => inner.varStatement
  | some (.reserved .«if») => inner.ifStatement
  | some (.reserved .«do») => inner.doStatement
  | some (.reserved .«while») => inner.whileStatement
  | some (.reserved .«for») => inner.forStatement
  | some (.reserved .«continue») => jumpStatement .«continue»
  | some (.reserved .«break») => jumpStatement .«break»
  | some (.reserved .«return») => inner.returnStatement
  | some (.reserved .«with») => inner.withStatement
  | some (.reserved .switch) => inner.switchStatement
  | some (.reserved .«throw») => inner.throwStatement
  | some (.reserved .«try») => inner.tryStatement
  | some (.reserved .function) => inner.function true
  | _ => inner.expressionStatement

def statement : ParserM ParseTree := do
  enter
  match ← token? with
  | some (.punctuator .semicolon) => thenLeaveIfOk emptyStatement
  | some (.reserved .debugger) => thenLeaveIfOk debuggerStatement
  | t => thenLeave (inner.longStatement t)

end Ecma3.Grammar.Inner
