import Ecma3.ParseTree.Basic

/-!
What happens on the way from a text to its syntax tree, as records for a log.
-/

namespace Ecma3.Log

inductive Level where
  | debug
  | trace
deriving DecidableEq, Repr

def Level.name : Level → String
  | debug => "DEBUG"
  | trace => "TRACE"

inductive Event where
  /-- A source of so many bytes has a parse tree of this kind, or none. -/
  | parsed (bytes : Nat) (root : Option Kind)
  /-- A parse tree node is about to be built. -/
  | visiting (kind : Kind) (span : Span)
  /-- A statement has a second label further in, which is the one it keeps. -/
  | droppedLabel (outer inner : String)
  /-- A `new` at this place moves out over so many member accesses. -/
  | movedNew (span : Span) (accesses : Nat)
  | built (count : Nat)
deriving DecidableEq, Repr

namespace Event

def level : Event → Level
  | visiting .. => .trace
  | _ => .debug

/-- The part of the program that an event belongs to. -/
def topic : Event → String
  | parsed .. => "es3::parse"
  | movedNew .. => "es3::rewrite"
  | _ => "es3::build"

def text : Event → String
  | parsed bytes root =>
    "parsed " ++ toString bytes ++ " bytes into " ++ (root.map (·.name)).getD "an empty unit"
  | visiting kind span => kind.name ++ " at " ++ span.render
  | droppedLabel outer inner =>
    "dropping label '" ++ outer ++ "', statement is already labelled '" ++ inner ++ "'"
  | movedNew span accesses =>
    "moving new at " ++ span.render ++ " over " ++ toString accesses ++ " accessor(s)"
  | built count => "built " ++ toString count ++ " top-level node(s)"

/-- A log at a level keeps the events of that level and of the coarser one. -/
def isKeptAt (e : Event) : Level → Bool
  | .trace => true
  | .debug => e.level == .debug

end Event

/-- Computations that tell what happens. -/
class MonadLog (m : Type → Type) where
  note : Event → m Unit

export MonadLog (note)

/-- Nothing is recorded where there is no place for it. -/
instance {ε : Type} : MonadLog (Except ε) where
  note _ := pure ()

/-- Computations with a log, which an error leaves as it is. -/
abbrev Logged (ε : Type) := EStateM ε (Array Event)

instance {ε : Type} : MonadLog (Logged ε) where
  note e := modify (·.push e)

end Ecma3.Log
