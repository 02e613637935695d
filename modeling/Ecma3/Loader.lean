import Ecma3.Pipeline
import Ecma3.Text.Encoding
import Ecma3.Text.Line

/-!
Sources: texts that were given or decoded, and what can be made of them. A failure that knows its byte
offset is reported with its line and column.
-/

namespace Ecma3
open Pipeline (Stage StageError)

inductive LoadError where
  /-- There is no file to read. -/
  | fileNotFound
  | undecodable (encoding : Text.Encoding) (fault : Text.DecodeFault)
  | failedStage (error : StageError) (position : Option Text.Position)
deriving DecidableEq, Repr

def LoadError.message : LoadError → String
  | fileNotFound => "IO error: No such file or directory (os error 2)"
  | undecodable encoding fault => "Invalid " ++ encoding.name ++ " input: " ++ fault.message
  | failedStage error (some position) => position.renderFromOne ++ ": " ++ error.message
  | failedStage error none => "Transform error: " ++ error.message

/-- A text to work on. -/
structure Source where
  text : String
deriving DecidableEq, Repr

namespace Source

def ofBytes (encoding : Text.Encoding) (bytes : List UInt8) : Except LoadError Source :=
  match encoding.decode bytes with
  | .ok text => .ok ⟨text⟩
  | .error fault => .error (.undecodable encoding fault)

/-- Decodes the contents of a file, which there are none of if the file does not exist. -/
def ofFile (encoding : Text.Encoding) : Option (List UInt8) → Except LoadError Source
  | some bytes => ofBytes encoding bytes
  | none => .error .fileNotFound

/-- The error of a stage with its position in the text. -/
def locate (s : Source) (e : StageError) : LoadError :=
  .failedStage e (e.offset.map (Text.LineIndex.ofString s.text).position)

/-- Runs a stage on the text. -/
def run {β : Type} (s : Source) (stage : Stage String β) : Except LoadError β :=
  (stage s.text).mapError s.locate

def tokenize (s : Source) : Except LoadError (List Lexeme) := s.run Pipeline.tokenization

def parseTree (s : Source) (limit : Nat) : Except LoadError (Option ParseTree) :=
  s.run (Pipeline.parsing limit)

def build (s : Source) (limit : Nat) : Except LoadError (List Node) := s.run (Pipeline.ast limit)

/-- Builds and keeps a log, which goes on up to the failure if there is one. -/
def buildLogged (s : Source) (limit : Nat) : Except LoadError (List Node) × List Log.Event :=
  match Pipeline.parsing limit s.text with
  | .error e => (.error (s.locate e), [])
  | .ok root =>
    let start : Array Log.Event :=
      #[.parsed (Text.byteLength s.text.toList) (root.map (·.kind))]
    match (Build.program limit root : Log.Logged Build.BuildError (List Node)) start with
    | .ok nodes log => (.ok nodes, log.toList)
    | .error e log =>
      (.error (s.locate ⟨"Building", e.message, some e.span.start⟩), log.toList)

end Source
end Ecma3
