import Ecma3.Ast.Node
import Ecma3.Decimal.Literal

/-!
From the text of a literal to its node. A number with a point is a floating-point number; any other
number must be an integer of 32 bits, and there is no way from one to the other.
-/

namespace Ecma3.Build.Literal

/-- A whole number as an integer of 32 bits, if it is one. -/
def int32? (n : Int) : Option Int32 :=
  if -2147483648 ≤ n && n ≤ 2147483647 then some (.ofInt n) else none

/-- The node of a decimal literal. -/
def decimal? (text : String) (span : Span) : Option Node := do
  let literal ← Decimal.Literal.parse? text.toList
  if literal.fraction.isSome then return .float literal.toBinary64 span
  if literal.exponent.isSome then none
  return .integer (← int32? (Text.valueOf 10 literal.whole)) span

/-- Hexadecimal digits, of which there is at least one. -/
def hexMagnitude? (digits : List Char) : Option Nat :=
  if digits.isEmpty || !digits.all Text.isHexDigit then none else some (Text.valueOf 16 digits)

/-- Hexadecimal digits after an optional sign. -/
def signedHex? : List Char → Option Int
  | '+' :: digits => (hexMagnitude? digits).map fun n => n
  | '-' :: digits => (hexMagnitude? digits).map fun n => -(n : Int)
  | digits => (hexMagnitude? digits).map fun n => n

/-- The node of a hexadecimal literal. -/
def hex? (text : String) (span : Span) : Option Node := do
  let digits ← match text.toList with
    | '0' :: 'x' :: digits => some digits
    | '0' :: 'X' :: digits => some digits
    | _ => none
  return .integer (← int32? (← signedHex? digits)) span

def isQuote (c : Char) : Bool := c == '"' || c == '\''

/-- The node of a string literal, which must end with the quote it begins with. -/
def string? (text : String) (span : Span) : Option Node :=
  match text.toList with
  | [] => none
  | quote :: rest =>
    if isQuote quote && rest.getLast? == some quote then
      some (.string (String.ofList rest.dropLast) quote span)
    else none

/-- The node of a regular expression literal. The last slash ends the pattern, which is not empty. -/
def regex? (text : String) (span : Span) : Option Node :=
  match text.toList with
  | '/' :: body =>
    let flags := (body.reverse.takeWhile (· ≠ '/')).reverse
    let pattern := body.take (body.length - flags.length - 1)
    if pattern.isEmpty then none
    else some (.regex (String.ofList pattern) (String.ofList flags) span)
  | _ => none

/-- The name of a property: what is written, without any quotes around it. -/
def propertyName (text : String) : String :=
  let unopened := text.toList.dropWhile isQuote
  String.ofList (unopened.reverse.dropWhile isQuote).reverse

end Ecma3.Build.Literal
