import Ecma3.Decimal.Binary64

/-!
The shortest decimal that reads back as a given floating-point number. All arithmetic is on whole
numbers: the number and the ends of the interval that rounds to it are brought to one denominator.
-/

namespace Ecma3.Decimal

/-- Which of two decimals to take when the number lies exactly in the middle. -/
inductive Tie where
  | up
  | toEven
deriving DecidableEq, Repr

/-- The reals that round to a number: from `low / den` to `high / den` around `mid / den`, ends
included if `closed`. -/
structure Interval where
  low : Nat
  mid : Nat
  high : Nat
  den : Nat
  closed : Bool

namespace Interval

/-- The interval of `significand * 2 ^ exponent`. Below a power of two the numbers lie half as far
apart, so the lower end is nearer there. -/
def ofBinary (significand : Nat) (exponent : Int) : Interval :=
  let (up, down) := Binary64.scale 2 (exponent - 2)
  let gap := if significand = Binary64.hiddenBit && Binary64.leastExponent < exponent then 1 else 2
  ⟨(4 * significand - gap) * up, 4 * significand * up, (4 * significand + 2) * up, down,
    significand % 2 = 0⟩

/-- The interval in units of `10 ^ k`. -/
def inUnits (i : Interval) (k : Int) : Interval :=
  let (up, down) := Binary64.scale 10 k
  ⟨i.low * down, i.mid * down, i.high * down, i.den * up, i.closed⟩

/-- A whole number lies in the interval. -/
def holds (i : Interval) (n : Nat) : Bool :=
  if i.closed then i.low ≤ n * i.den && n * i.den ≤ i.high
  else i.low < n * i.den && n * i.den < i.high

/-- Of the two whole numbers around the middle, the one that lies in the interval; of two such ones
the nearer. -/
def nearest? (tie : Tie) (i : Interval) : Option Nat :=
  let below := i.mid / i.den
  match i.holds below, i.holds (below + 1) with
  | false, false => none
  | true, false => some below
  | false, true => some (below + 1)
  | true, true =>
    let twice := 2 * (i.mid % i.den)
    if twice < i.den then some below
    else if i.den < twice then some (below + 1)
    else match tie with
      | .up => some (below + 1)
      | .toEven => some (below + below % 2)

/-- Looks for a whole number of units `10 ^ k`, then of ten times smaller units, and so on. -/
def search (tie : Tie) (i : Interval) : Nat → Int → Nat × Int
  | 0, k => ((i.inUnits k).mid / (i.inUnits k).den, k)
  | steps + 1, k =>
    match (i.inUnits k).nearest? tie with
    | some digits => (digits, k)
    | none => search tie i steps (k - 1)

end Interval

/-- Digits `d` and exponent `k` such that `d * 10 ^ k` reads back as `significand * 2 ^ exponent`, for
a positive significand. The search begins with a unit above the number. -/
def shortest (tie : Tie) (significand : Nat) (exponent : Int) : Nat × Int :=
  let magnitude : Int := significand.log2 + 1 + exponent
  (Interval.ofBinary significand exponent).search tie 24 (magnitude * 30103 / 100000 + 2)

end Ecma3.Decimal
