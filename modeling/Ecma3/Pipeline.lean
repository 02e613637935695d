import Ecma3.Build.Program
import Ecma3.Grammar.Program

/-!
The way from a text to its syntax tree in stages. A stage that fails says which one it is, why, and where
if it knows.
-/

namespace Ecma3.Pipeline

structure StageError where
  stage : String
  detail : String
  /-- The byte at which the stage failed. -/
  offset : Option Nat
deriving DecidableEq, Repr

def StageError.message (e : StageError) : String :=
  "Stage '" ++ e.stage ++ "' failed: " ++ e.detail

/-- Something that turns an input into an output or fails. -/
abbrev Stage (α β : Type) := α → Except StageError β

namespace Stage

/-- One stage after another. The second does not run if the first fails. -/
def andThen {α β γ : Type} (first : Stage α β) (second : Stage β γ) : Stage α γ :=
  fun a => first a >>= second

end Stage

/-- All lexemes of a text. -/
def tokenization : Stage String (List Lexeme) := fun source =>
  (Lexeme.tokenize source).mapError fun e => ⟨"Tokenization", e.message, some e.span.start⟩

/-- The parse tree of a text, if it has any statements. -/
def parsing (limit : Nat) : Stage String (Option ParseTree) := fun source =>
  (Grammar.parse limit source).mapError fun e => ⟨"Parsing", e.message, some e.span.start⟩

/-- The syntax trees of a parse tree. -/
def building (limit : Nat) : Stage (Option ParseTree) (List Node) := fun root =>
  (Build.program limit root : Except Build.BuildError (List Node)).mapError fun e =>
    ⟨"Building", e.message, some e.span.start⟩

/-- From the text to the syntax trees. -/
def ast (limit : Nat) : Stage String (List Node) := (parsing limit).andThen (building limit)

end Ecma3.Pipeline
