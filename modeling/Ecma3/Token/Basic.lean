import Ecma3.Token.ReservedWord
import Ecma3.Token.Punctuator

/-!
Tokens of the language. A token says what kind of text it is; the text itself is in the lexeme.
There is no token for regular expression literals: whether a slash begins one depends on the grammar.
-/

namespace Ecma3

inductive Token where
  | lineTerminator
  | lineComment
  | blockComment
  | reserved (word : ReservedWord)
  | identifier
  | decimalLiteral
  | hexLiteral
  | stringLiteral
  | punctuator (mark : Punctuator)
deriving DecidableEq, Repr

namespace Token

/-- Tokens without grammatical role of their own. -/
def isTrivia : Token → Bool
  | lineTerminator | lineComment | blockComment => true
  | _ => false

def isReserved : Token → Bool
  | reserved _ => true
  | _ => false

/-- Tokens that may turn out to open a regular expression literal. -/
def mayOpenRegex : Token → Bool
  | punctuator .slash | punctuator .slashAssign => true
  | _ => false

/-- The name under which token lists show the token. -/
def name : Token → String
  | lineTerminator => "LineTerminator"
  | lineComment => "LineComment"
  | blockComment => "BlockComment"
  | reserved word => word.name
  | identifier => "Identifier"
  | decimalLiteral => "DecimalLiteral"
  | hexLiteral => "HexIntegerLiteral"
  | stringLiteral => "StringLiteral"
  | punctuator mark => mark.name

end Token
end Ecma3
