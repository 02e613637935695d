import Ecma3.Ast.Sexp
import Ecma3.Loader
import Ecma3.Nesting
import Ecma3.Text.Quoted

/-!
Assertions about programs: that a source builds, how many nodes it has, and what single nodes are.
-/

namespace Ecma3.Assertion
open Text.Quoted (quote)

/-- What can be asserted of a node. -/
inductive Check where
  | kind (name : String)
  | sexp (text : String)
  | label (label : Option String)
  | span (start stop : Nat)
  | integer (value : Int)
  | float (value : Binary64)
  | identifier (name : String) (isDefinition : Bool)
deriving Repr

/-- What an assertion says when it fails. -/
inductive Failure where
  | notBuilt (source : String) (error : LoadError)
  | noStatement (source : String) (index count : Nat)
  /-- The node is of another kind than the one whose value was asserted. -/
  | otherKind (context expected found : String)
  /-- Two values that should have been equal, in the form in which they are shown. -/
  | unequal (claim actual expected : String)
deriving Repr

def Failure.message : Failure → String
  | notBuilt source error => "Failed to build " ++ quote source ++ ": " ++ error.message
  | noStatement source index count =>
    quote source ++ ": Expected a statement at " ++ toString index ++ ", found " ++
      toString count ++ " statements"
  | otherKind context expected found =>
    context ++ ": Expected " ++ expected ++ ", found " ++ found
  | unequal claim actual expected =>
    "assertion `left == right` failed: " ++ claim ++ "\n  left: " ++ actual ++ "\n right: " ++ expected

def showLabel : Option String → String
  | some label => "Some(" ++ quote label ++ ")"
  | none => "None"

def showPair (a b : Nat) : String := "(" ++ toString a ++ ", " ++ toString b ++ ")"

def showBool (b : Bool) : String := if b then "true" else "false"

/-- Fails unless the two values are equal. -/
def demand (equal : Bool) (claim actual expected : String) : Except Failure Unit :=
  if equal then .ok () else .error (.unequal claim actual expected)

def checkNode (context : String) (node : Node) : Check → Except Failure Unit
  | .kind name =>
    demand (node.kindName == name)
      (context ++ ": Expected " ++ name ++ ", found " ++ node.kindName)
      (quote node.kindName) (quote name)
  | .sexp text =>
    demand (node.sexp == text) (context ++ ": node shape") (quote node.sexp) (quote text)
  | .label label =>
    demand (node.label == label)
      (context ++ ": Expected label " ++ showLabel label ++ ", found " ++ showLabel node.label)
      (showLabel node.label) (showLabel label)
  | .span start stop =>
    demand (node.span == ⟨start, stop⟩)
      (context ++ ": Expected span " ++ Span.render ⟨start, stop⟩ ++ ", found " ++ node.span.render)
      (showPair node.span.start node.span.stop) (showPair start stop)
  | .integer value =>
    match node with
    | .integer found _ =>
      demand (found.toInt == value) (context ++ ": integer value") (toString found.toInt)
        (toString value)
    | other => .error (.otherKind context "Integer" other.kindName)
  | .float value =>
    match node with
    | .float found _ =>
      demand (found.numEq value) (context ++ ": float value") (Sexp.floatLayout.render found)
        (Sexp.floatLayout.render value)
    | other => .error (.otherKind context "Float" other.kindName)
  | .identifier name isDefinition =>
    match node with
    | .identifier found definition _ => do
      demand (found == name) (context ++ ": identifier name") (quote found) (quote name)
      demand (definition == isDefinition) (context ++ ": definition flag of '" ++ name ++ "'")
        (showBool definition) (showBool isDefinition)
    | other => .error (.otherKind context "Identifier" other.kindName)

/-- The nodes of a source, which must build. -/
def built (source : String) : Except Failure (List Node) :=
  (Source.build ⟨source⟩ Nesting.defaultLimit).mapError (.notBuilt source)

def checkCount (source : String) (nodes : List Node) (count : Nat) : Except Failure Unit :=
  demand (nodes.length == count)
    (quote source ++ ": Expected " ++ toString count ++ " top-level nodes, found " ++
      toString nodes.length)
    (toString nodes.length) (toString count)

/-- Compares the text of the whole program. -/
def checkProgram (source : String) (nodes : List Node) (text : String) : Except Failure Unit :=
  let found := Node.sexpProgram nodes
  demand (found == text) (quote source ++ ": program shape") (quote found) (quote text)

/-- Checks the node at an index. -/
def checkStatement (source : String) (nodes : List Node) (index : Nat) (check : Check) :
    Except Failure Unit :=
  match nodes[index]? with
  | some node => checkNode (quote source ++ " statement " ++ toString index) node check
  | none => .error (.noStatement source index nodes.length)

/-- Everything asserted of one source, in order; the number of nodes if all of it holds. -/
def run (source : String) (count : Option Nat) (text : Option String) (checks : List (Nat × Check)) :
    Except Failure Nat := do
  let nodes ← built source
  if let some count := count then checkCount source nodes count
  if let some text := text then checkProgram source nodes text
  checks.forM fun (index, check) => checkStatement source nodes index check
  return nodes.length

end Ecma3.Assertion
