import Ecma3.Grammar.Error
import Ecma3.ParseTree.Basic

/-!
The state of a parser between tokens, and the steps that all productions are made of. An error leaves
the state as it was when the error arose, and a session can be taken up again after it.
-/

namespace Ecma3.Grammar

structure Session where
  source : List Char
  /-- Bytes of the source. -/
  size : Nat
  /-- Nesting allowed. -/
  limit : Nat
  /-- Where the text after the current lexeme begins. -/
  cursor : Cursor
  /-- The lexeme to be parsed next, or nothing at the end. A lexical error leaves the lexeme before it
  in place. -/
  current : Option Lexeme
  /-- A line ended between the current lexeme and the one before it. -/
  lineBreakBefore : Bool
  /-- Where the last lexeme that was passed ended. -/
  lastEnd : Nat
  /-- Nesting reached. -/
  depth : Nat
deriving DecidableEq, Repr

/-- Parsers take lexemes from the session and may fail. -/
abbrev ParserM := EStateM SyntaxError Session

namespace Session

/-- The session before its first lexeme is read. -/
def ofString (limit : Nat) (source : String) : Session where
  source := source.toList
  size := Text.byteLength source.toList
  limit := limit
  cursor := .ofString source
  current := none
  lineBreakBefore := false
  lastEnd := 0
  depth := 0

def token? (s : Session) : Option Token := s.current.map (·.token)

/-- The place of the current lexeme; the end of the source if there is none. -/
def span (s : Session) : Span :=
  match s.current with
  | some lexeme => lexeme.span
  | none => ⟨s.size, s.size⟩

def text (s : Session) : String :=
  match s.current with
  | some lexeme => lexeme.text
  | none => ""

end Session

namespace ParserM

/-- Moves on to the next lexeme that is no trivia. -/
def advance : ParserM Unit := fun s =>
  let lastEnd := match s.current with
    | some lexeme => lexeme.span.stop
    | none => s.lastEnd
  let (found, lineBreak, cursor) := s.cursor.nextSignificant false
  let s := { s with lastEnd, cursor, lineBreakBefore := lineBreak }
  match found with
  | none => .ok () { s with current := none }
  | some (.ok lexeme) => .ok () { s with current := some lexeme }
  | some (.error e) => .error (.lexical e) s

def token? : ParserM (Option Token) := return (← get).token?

def currentSpan : ParserM Span := return (← get).span

def currentText : ParserM String := return (← get).text

def lineBreakBefore : ParserM Bool := return (← get).lineBreakBefore

/-- The current token is this one. -/
def sees (t : Token) : ParserM Bool := return (← get).token? == some t

def seesMark (mark : Punctuator) : ParserM Bool := sees (.punctuator mark)

def seesWord (word : ReservedWord) : ParserM Bool := sees (.reserved word)

/-- From `start` to the end of the last lexeme that was passed. -/
def spanFrom (start : Nat) : ParserM Span := return ⟨start, max (← get).lastEnd start⟩

def unexpected {α : Type} (expected : Expected) : ParserM α := do
  let s ← get
  throw (.unexpected expected (s.current.map (·.text)) s.span)

/-- Passes the token if it is the current one, and tells whether it was. -/
def accept (t : Token) : ParserM Bool := do
  if ← sees t then
    advance
    return true
  else return false

def acceptMark (mark : Punctuator) : ParserM Bool := accept (.punctuator mark)

def acceptWord (word : ReservedWord) : ParserM Bool := accept (.reserved word)

/-- Passes the token, which must be the current one, and gives its place. -/
def demand (t : Token) (expected : Expected) : ParserM Span := do
  if ← sees t then
    let span ← currentSpan
    advance
    return span
  else unexpected expected

def demandMark (mark : Punctuator) : ParserM Span := demand (.punctuator mark) (.punctuator mark)

def demandWord (word : ReservedWord) : ParserM Span := demand (.reserved word) (.reserved word)

/-- Passes the current token and makes a leaf of it. -/
def leaf (kind : Kind) : ParserM ParseTree := do
  let span ← currentSpan
  let text ← currentText
  advance
  return .leaf kind text span

/-- Ends a statement: with a semicolon, or without one before a closing brace, at the end of the source
and where the line ended. -/
def endStatement : ParserM Unit := do
  if ← acceptMark .semicolon then return
  let s ← get
  if s.current.isNone || s.token? == some (.punctuator .rightBrace) || s.lineBreakBefore then return
  unexpected (.punctuator .semicolon)

/-- Goes one level deeper. A level beyond the limit is an error, and counts all the same. -/
def enter : ParserM Unit := do
  modify fun s => { s with depth := s.depth + 1 }
  let s ← get
  if s.limit < s.depth then throw (.nestingTooDeep s.limit s.span)

/-- Comes back up one level. -/
def leave : ParserM Unit := modify fun s => { s with depth := s.depth - 1 }

/-- Comes back up one level after `p`, whether or not it fails. -/
def thenLeave {α : Type} (p : ParserM α) : ParserM α := fun s =>
  match p s with
  | .ok a s => .ok a { s with depth := s.depth - 1 }
  | .error e s => .error e { s with depth := s.depth - 1 }

/-- Comes back up one level after `p` if it does not fail. -/
def thenLeaveIfOk {α : Type} (p : ParserM α) : ParserM α := do
  let a ← p
  leave
  return a

/-- What one turn of a repetition found. -/
inductive Turn (α : Type) where
  | stop
  | skip
  | last (a : α)
  | more (a : α)

/-- Takes turns until one of them ends the repetition, and collects what they found. -/
def collect {α : Type} (turn : ParserM (Turn α)) : Nat → ParserM (List α)
  | 0 => throw .endless
  | bound + 1 => do
    match ← turn with
    | .stop => return []
    | .skip => collect turn bound
    | .last a => return [a]
    | .more a => return a :: (← collect turn bound)

/-- Extends a tree by turns until one of them leaves it as it is. -/
def extend (turn : ParseTree → ParserM (Option ParseTree)) : Nat → ParseTree → ParserM ParseTree
  | 0, _ => throw .endless
  | bound + 1, tree => do
    match ← turn tree with
    | none => return tree
    | some tree => extend turn bound tree

end ParserM
end Ecma3.Grammar
