/-!
The reserved words of the language: keywords and the literals written as words.
-/

namespace Ecma3

inductive ReservedWord where
  | «break»
  | «case»
  | «catch»
  | «continue»
  | debugger
  | «default»
  | delete
  | «do»
  | «else»
  | «finally»
  | «for»
  | function
  | «if»
  | «in»
  | instanceof
  | new
  | «return»
  | switch
  | «this»
  | «throw»
  | «try»
  | typeof
  | var
  | void
  | «while»
  | «with»
  | nullLiteral
  | trueLiteral
  | falseLiteral
deriving DecidableEq, Repr

namespace ReservedWord

def all : List ReservedWord :=
  [.«break», .«case», .«catch», .«continue», .debugger, .«default», .delete, .«do», .«else»,
   .«finally», .«for», .function, .«if», .«in», .instanceof, .new, .«return», .switch, .«this»,
   .«throw», .«try», .typeof, .var, .void, .«while», .«with», .nullLiteral, .trueLiteral,
   .falseLiteral]

def spelling : ReservedWord → String
  | .«break» => "break"
  | .«case» => "case"
  | .«catch» => "catch"
  | .«continue» => "continue"
  | .debugger => "debugger"
  | .«default» => "default"
  | .delete => "delete"
  | .«do» => "do"
  | .«else» => "else"
  | .«finally» => "finally"
  | .«for» => "for"
  | .function => "function"
  | .«if» => "if"
  | .«in» => "in"
  | .instanceof => "instanceof"
  | .new => "new"
  | .«return» => "return"
  | .switch => "switch"
  | .«this» => "this"
  | .«throw» => "throw"
  | .«try» => "try"
  | .typeof => "typeof"
  | .var => "var"
  | .void => "void"
  | .«while» => "while"
  | .«with» => "with"
  | .nullLiteral => "null"
  | .trueLiteral => "true"
  | .falseLiteral => "false"

/-- The reserved word with this spelling. -/
def ofSpelling? (text : String) : Option ReservedWord := all.find? (·.spelling == text)

/-- The name under which token lists show the word: its spelling with a capital. -/
def name (w : ReservedWord) : String := w.spelling.capitalize

end ReservedWord
end Ecma3
