import Ecma3.Build.Program

/-!
A builder that is called again and again. It counts the levels of nesting that it is in, and what one
call leaves of that count is where the next one begins, after an error too.
-/

namespace Ecma3.Build
open Log

/-- A builder between two steps: its limit on nesting, and the levels that it is in. -/
structure Builder where
  limit : Nat
  depth : Nat
deriving DecidableEq, Repr

/-- Computations with a builder, which an error leaves as it was when the error arose. -/
abbrev BuilderM := EStateM BuildError Builder

instance : MonadLog BuilderM where
  note _ := pure ()

namespace BuilderM

/-- Goes one level deeper for a tree. A level beyond the limit is an error, and counts all the same. -/
def enter (tree : ParseTree) : BuilderM Unit := do
  modify fun b => { b with depth := b.depth + 1 }
  let b ← get
  if b.limit < b.depth then throw (.nestingTooDeep b.limit tree.span)

/-- Comes back up one level after `p`, whether or not it fails. -/
def thenLeave {α : Type} (p : BuilderM α) : BuilderM α := fun b =>
  match p b with
  | .ok a b => .ok a { b with depth := b.depth - 1 }
  | .error e b => .error e { b with depth := b.depth - 1 }

/-- Builds a tree for a builder that can go so many levels deeper. -/
def within : Nat → ParseTree → Option String → BuilderM Node
  | 0, tree, _ => thenLeave do
    enter tree
    -- not reached: a builder without a level left does not get past `enter`
    unsupported tree
  | levels + 1, tree, label => thenLeave do
    enter tree
    visit (within levels) tree label

/-- Builds one tree, with a label for the statement it makes. -/
def node (tree : ParseTree) (label : Option String) : BuilderM Node := do
  let b ← get
  within (b.limit - b.depth) tree label

/-- The nodes of a whole source: one for each statement, and a null for a source without any. -/
def program (root : Option ParseTree) : BuilderM (List Node) := do
  let nodes ← match root with
    | none => pure [.null ⟨0, 0⟩]
    | some root =>
      if root.kind = .unit then all node root.children
      else pure [← node root none]
  note (.built nodes.length)
  return nodes

end BuilderM

/-- What a builder can be asked for. -/
inductive Call where
  /-- The nodes of a whole source. -/
  | program (root : Option ParseTree)
  /-- The node of one tree. -/
  | build (tree : ParseTree)
  /-- The node of one tree, which is a statement with this label if there is one. -/
  | node (tree : ParseTree) (label : Option String)

/-- The nodes that answer a call; all but the calls for a whole source are answered by one. -/
def Call.run : Call → BuilderM (List Node)
  | program root => BuilderM.program root
  | build tree => return [← BuilderM.node tree none]
  | node tree label => return [← BuilderM.node tree label]

namespace Builder

/-- A builder that has not been called. -/
def fresh (limit : Nat) : Builder := ⟨limit, 0⟩

/-- The outcome of a call, and the builder after it. -/
def call (b : Builder) (c : Call) : Except BuildError (List Node) × Builder :=
  match c.run b with
  | .ok nodes b => (.ok nodes, b)
  | .error e b => (.error e, b)

/-- The outcomes of calls in a row, failed ones included, and the builder after them. -/
def calls (b : Builder) : List Call → List (Except BuildError (List Node)) × Builder
  | [] => ([], b)
  | c :: rest =>
    let (outcome, b) := b.call c
    let (outcomes, b) := b.calls rest
    (outcome :: outcomes, b)

end Builder
end Ecma3.Build
