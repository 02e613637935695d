/-!
The punctuators of the language: brackets, separators and operators that are not words.
-/

namespace Ecma3

inductive Punctuator where
  | leftBrace
  | rightBrace
  | leftParen
  | rightParen
  | leftBracket
  | rightBracket
  | dot
  | semicolon
  | comma
  | question
  | colon
  | less
  | greater
  | lessEqual
  | greaterEqual
  | equal
  | notEqual
  | same
  | notSame
  | plus
  | minus
  | star
  | slash
  | percent
  | plusPlus
  | minusMinus
  | shiftLeft
  | shiftRight
  | shiftRightUnsigned
  | amp
  | pipe
  | caret
  | bang
  | tilde
  | ampAmp
  | pipePipe
  | assign
  | plusAssign
  | minusAssign
  | starAssign
  | slashAssign
  | percentAssign
  | shiftLeftAssign
  | shiftRightAssign
  | shiftRightUnsignedAssign
  | ampAssign
  | pipeAssign
  | caretAssign
deriving DecidableEq, Repr

namespace Punctuator

def all : List Punctuator :=
  [.leftBrace, .rightBrace, .leftParen, .rightParen, .leftBracket, .rightBracket, .dot, .semicolon,
   .comma, .question, .colon, .less, .greater, .lessEqual, .greaterEqual, .equal, .notEqual, .same,
   .notSame, .plus, .minus, .star, .slash, .percent, .plusPlus, .minusMinus, .shiftLeft,
   .shiftRight, .shiftRightUnsigned, .amp, .pipe, .caret, .bang, .tilde, .ampAmp, .pipePipe,
   .assign, .plusAssign, .minusAssign, .starAssign, .slashAssign, .percentAssign, .shiftLeftAssign,
   .shiftRightAssign, .shiftRightUnsignedAssign, .ampAssign, .pipeAssign, .caretAssign]

def spelling : Punctuator → String
  | .leftBrace => "\x7b"
  | .rightBrace => "\x7d"
  | .leftParen => "("
  | .rightParen => ")"
  | .leftBracket => "["
  | .rightBracket => "]"
  | .dot => "."
  | .semicolon => ";"
  | .comma => ","
  | .question => "?"
  | .colon => ":"
  | .less => "<"
  | .greater => ">"
  | .lessEqual => "<="
  | .greaterEqual => ">="
  | .equal => "=="
  | .notEqual => "!="
  | .same => "==="
  | .notSame => "!=="
  | .plus => "+"
  | .minus => "-"
  | .star => "*"
  | .slash => "/"
  | .percent => "%"
  | .plusPlus => "++"
  | .minusMinus => "--"
  | .shiftLeft => "<<"
  | .shiftRight => ">>"
  | .shiftRightUnsigned => ">>>"
  | .amp => "&"
  | .pipe => "|"
  | .caret => "^"
  | .bang => "!"
  | .tilde => "~"
  | .ampAmp => "&&"
  | .pipePipe => "||"
  | .assign => "="
  | .plusAssign => "+="
  | .minusAssign => "-="
  | .starAssign => "*="
  | .slashAssign => "/="
  | .percentAssign => "%="
  | .shiftLeftAssign => "<<="
  | .shiftRightAssign => ">>="
  | .shiftRightUnsignedAssign => ">>>="
  | .ampAssign => "&="
  | .pipeAssign => "|="
  | .caretAssign => "^="

/-- The name under which token lists show the punctuator. -/
def name : Punctuator → String
  | .leftBrace => "LBrace"
  | .rightBrace => "RBrace"
  | .leftParen => "LParen"
  | .rightParen => "RParen"
  | .leftBracket => "LBracket"
  | .rightBracket => "RBracket"
  | .dot => "Dot"
  | .semicolon => "Semicolon"
  | .comma => "Comma"
  | .question => "Question"
  | .colon => "Colon"
  | .less => "Lt"
  | .greater => "Gt"
  | .lessEqual => "Lte"
  | .greaterEqual => "Gte"
  | .equal => "Eq"
  | .notEqual => "Neq"
  | .same => "Same"
  | .notSame => "NotSame"
  | .plus => "Plus"
  | .minus => "Minus"
  | .star => "Star"
  | .slash => "Slash"
  | .percent => "Percent"
  | .plusPlus => "PlusPlus"
  | .minusMinus => "MinusMinus"
  | .shiftLeft => "Shl"
  | .shiftRight => "Shr"
  | .shiftRightUnsigned => "Shu"
  | .amp => "Amp"
  | .pipe => "Pipe"
  | .caret => "Caret"
  | .bang => "Bang"
  | .tilde => "Tilde"
  | .ampAmp => "AmpAmp"
  | .pipePipe => "PipePipe"
  | .assign => "Assign"
  | .plusAssign => "PlusAssign"
  | .minusAssign => "MinusAssign"
  | .starAssign => "StarAssign"
  | .slashAssign => "SlashAssign"
  | .percentAssign => "PercentAssign"
  | .shiftLeftAssign => "ShlAssign"
  | .shiftRightAssign => "ShrAssign"
  | .shiftRightUnsignedAssign => "ShuAssign"
  | .ampAssign => "AmpAssign"
  | .pipeAssign => "PipeAssign"
  | .caretAssign => "CaretAssign"

end Punctuator
end Ecma3
