import Ecma3.Decimal.Binary64
import Ecma3.Text.Digit

/-!
Decimal literals as written: digits, a point with digits after it, an exponent.
-/

namespace Ecma3.Decimal

open Text

structure Literal where
  /-- Digits before the point. -/
  whole : List Char
  /-- Digits after the point, if there is a point. -/
  fraction : Option (List Char)
  /-- Sign and digits of the exponent, if there is one. -/
  exponent : Option (Bool × List Char)
deriving Repr

namespace Literal

/-- An exponent without its sign must have a digit and nothing else. -/
def unsigned? (negative : Bool) (cs : List Char) : Option (Bool × List Char) :=
  if cs.isEmpty || !cs.all isDigit then none else some (negative, cs)

def exponentDigits? : List Char → Option (Bool × List Char)
  | '+' :: digits => unsigned? false digits
  | '-' :: digits => unsigned? true digits
  | digits => unsigned? false digits

/-- Reads a whole text as a literal. There is a digit before the point or after it. -/
def parse? (cs : List Char) : Option Literal :=
  let whole := cs.takeWhile isDigit
  let (fraction, rest) := match cs.dropWhile isDigit with
    | '.' :: rest => (some (rest.takeWhile isDigit), rest.dropWhile isDigit)
    | rest => (none, rest)
  if whole.isEmpty && (fraction.getD []).isEmpty then none
  else match rest with
    | [] => some ⟨whole, fraction, none⟩
    | c :: rest =>
      if c == 'e' || c == 'E' then (exponentDigits? rest).map fun e => ⟨whole, fraction, some e⟩
      else none

def scale (l : Literal) : Int :=
  match l.exponent with
  | none => 0
  | some (negative, digits) => if negative then -(valueOf 10 digits : Int) else valueOf 10 digits

/-- The nearest floating-point number. -/
def toBinary64 (l : Literal) : Binary64 :=
  let fraction := l.fraction.getD []
  .ofDecimal false (valueOf 10 (l.whole ++ fraction)) (l.scale - fraction.length)

end Literal
end Ecma3.Decimal
