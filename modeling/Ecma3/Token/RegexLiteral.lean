import Ecma3.Text.Line
import Ecma3.Unicode.Name

/-!
Regular expression literals: a slash, a body on one line, a slash and flags. A slash in a class
(between square brackets) or after a backslash belongs to the body.
-/

namespace Ecma3.Token.RegexLiteral

/-- Length of a body and the slash that closes it, beginning inside a class or outside. -/
def body? (inClass : Bool) : List Char → Option Nat
  | [] => none
  | '\\' :: c :: rest =>
    if Text.isLineTerminator c then none else (body? inClass rest).map (· + 2)
  | c :: rest =>
    if Text.isLineTerminator c then none
    else if c == '/' && !inClass then some 1
    else (body? (if c == '[' then true else if c == ']' then false else inClass) rest).map (· + 1)

def isFlag (c : Char) : Bool := Unicode.isAlphanumeric c || c == '_' || c == '$'

/-- Length of the literal whose opening slash is the first character. -/
def length? : List Char → Option Nat
  | [] => none
  | _ :: rest => do
    let body ← body? false rest
    return 1 + body + ((rest.drop body).takeWhile isFlag).length

end Ecma3.Token.RegexLiteral
