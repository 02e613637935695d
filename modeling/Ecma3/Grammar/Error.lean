import Ecma3.Token.Lexeme

/-!
Why a text is not a program, and the wording of each reason.
-/

namespace Ecma3.Grammar

/-- What the grammar would have allowed. -/
inductive Expected where
  | reserved (word : ReservedWord)
  | punctuator (mark : Punctuator)
  | identifier
  | propertyName
  | functionName
  | expression
  | thrownExpression
  | handler
  | clauseAfterDefault
deriving DecidableEq, Repr

def Expected.description : Expected → String
  | reserved word => "'" ++ word.spelling ++ "'"
  | punctuator mark => "'" ++ mark.spelling ++ "'"
  | identifier => "identifier"
  | propertyName => "property name"
  | functionName => "function name"
  | expression => "expression"
  | thrownExpression => "expression on the same line as 'throw'"
  | handler => "'catch' or 'finally'"
  | clauseAfterDefault => "'case' or '\x7d' after the default clause"

inductive SyntaxError where
  /-- Text that is no token. -/
  | lexical (error : LexicalError)
  /-- A token, or the end of the text, where something else is expected. -/
  | unexpected (expected : Expected) (found : Option String) (span : Span)
  /-- A slash that must open a regular expression, with no closing slash on its line. -/
  | unterminatedRegex (span : Span)
  | nestingTooDeep (limit : Nat) (span : Span)
  /-- A regular expression that cannot be passed over, because what follows its opening slash has
  been read already. Only a call that resumes after a lexical error can meet one. -/
  | regexOutOfStep (span : Span)
  /-- More rounds than there are tokens. -/
  | endless
deriving DecidableEq, Repr

namespace SyntaxError

def span : SyntaxError → Span
  | lexical error => error.span
  | unexpected _ _ span => span
  | unterminatedRegex span => span
  | nestingTooDeep _ span => span
  | regexOutOfStep span => span
  | endless => ⟨0, 0⟩

/-- Ends every message of an error that has a place. -/
def atByte (span : Span) : String := " at byte " ++ toString span.start

def message : SyntaxError → String
  | lexical error => error.message
  | unexpected expected (some found) span =>
    "Expected " ++ expected.description ++ ", found '" ++ found ++ "'" ++ atByte span
  | unexpected expected none span =>
    "Expected " ++ expected.description ++ ", found end of input" ++ atByte span
  | unterminatedRegex span => "Unterminated regular expression" ++ atByte span
  | nestingTooDeep limit span => "Nesting deeper than " ++ toString limit ++ " levels" ++ atByte span
  | regexOutOfStep span => "Regular expression cannot be passed over" ++ atByte span
  | endless => "Parsing does not end"

end SyntaxError
end Ecma3.Grammar
