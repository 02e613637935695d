import Ecma3.Grammar.Statement

/-!
Whole programs. The number of characters that are left bounds the number of tokens, and so how deep
and how often anything can still be parsed.
-/

namespace Ecma3.Grammar

/-- The production for a goal. -/
def Inner.production (inner : Inner) : Goal → ParserM ParseTree
  | .statement => inner.statement
  | .assignment allowIn => inner.assignment allowIn
  | .binary allowIn least => inner.binary allowIn least
  | .unary => inner.unary
  | .memberBase => inner.memberBase

/-- Parses a goal in which constructs stand inside each other less than `bound` deep. -/
def parseWithin : Nat → Goal → ParserM ParseTree
  | 0, _ => throw .endless
  | bound + 1, goal => Inner.production ⟨bound + 1, parseWithin bound⟩ goal

/-- Nothing for a source without statements, a single statement as it is, and several under a `unit`
node. -/
def Inner.program (inner : Inner) : ParserM (Option ParseTree) := do
  match ← inner.statements fun _ => false with
  | [] => return none
  | [only] => return some only
  | first :: others =>
    return some (.group .unit ⟨first.span.start, (← get).lastEnd⟩ (first :: others))

/-- Parses from the current lexeme to the end of the source. -/
def ParserM.program : ParserM (Option ParseTree) := do
  let bound := (← get).cursor.rest.length + 2
  Inner.program ⟨bound, parseWithin bound⟩

/-- A session that has read its first lexeme. -/
def Session.start (limit : Nat) (source : String) : Except SyntaxError Session :=
  match ParserM.advance (.ofString limit source) with
  | .ok _ s => .ok s
  | .error e _ => .error e

/-- What one call finds, and the session after it. -/
def Session.program (s : Session) : Except SyntaxError (Option ParseTree) × Session :=
  match ParserM.program s with
  | .ok tree s => (.ok tree, s)
  | .error e s => (.error e, s)

/-- The parse tree of a source whose constructs are nested no deeper than `limit`. -/
def parse (limit : Nat) (source : String) : Except SyntaxError (Option ParseTree) := do
  (← Session.start limit source).program.1

end Ecma3.Grammar
