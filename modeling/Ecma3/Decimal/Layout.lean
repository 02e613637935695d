import Ecma3.Decimal.Shortest

/-!
Writing floating-point numbers in decimal. All writers take the fewest digits that read back; a layout
holds what they decide differently.
-/

namespace Ecma3.Decimal

structure Layout where
  /-- The number of zeros after the point that are still written out. -/
  leadingZeros : Nat
  /-- The number of digits before the point that are still written out. -/
  wholeDigits : Nat
  /-- Exponents that are not negative have a plus sign. -/
  plusSign : Bool
  tie : Tie
  infinity : String

namespace Layout

def exponentText (l : Layout) (exponent : Int) : String :=
  (if l.plusSign && 0 ≤ exponent then "e+" else "e") ++ toString exponent

/-- Writes the digits with the point after the first `point` of them. -/
def place (l : Layout) (digits : List Char) (point : Int) : String :=
  let count := digits.length
  if -(l.leadingZeros : Int) ≤ point && point ≤ l.wholeDigits then
    if point ≤ 0 then "0." ++ String.ofList (List.replicate (-point).toNat '0' ++ digits)
    else if point < count then
      String.ofList (digits.take point.toNat ++ '.' :: digits.drop point.toNat)
    else String.ofList (digits ++ List.replicate (point.toNat - count) '0') ++ ".0"
  else
    let mantissa := match digits with
      | [only] => [only]
      | first :: others => first :: '.' :: others
      | [] => []
    String.ofList mantissa ++ l.exponentText (point - 1)

def render (l : Layout) : Binary64 → String
  | .infinite negative => (if negative then "-" else "") ++ l.infinity
  | .finite negative significand exponent =>
    let text :=
      if significand = 0 then "0.0"
      else
        let (digits, unit) := shortest l.tie significand exponent
        let digits := Nat.toDigits 10 digits
        l.place digits (digits.length + unit)
    (if negative then "-" else "") ++ text

end Layout
end Ecma3.Decimal
