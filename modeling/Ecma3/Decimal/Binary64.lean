/-!
Floating-point numbers of 64 bits, and rounding to them: to the nearest one, and of two equally near
ones to the one with the even significand.
-/

namespace Ecma3

/-- The number `significand * 2 ^ exponent` or an infinity. Numbers that rounding gives have a
significand below `2 ^ 53`, and one of at least `2 ^ 52` unless the exponent is the least one. -/
inductive Binary64 where
  | finite (negative : Bool) (significand : Nat) (exponent : Int)
  | infinite (negative : Bool)
deriving DecidableEq, Repr

namespace Binary64

def leastExponent : Int := -1074

def greatestExponent : Int := 971

/-- Least significand that uses all bits. -/
def hiddenBit : Nat := Nat.pow 2 52

def zero (negative : Bool) : Binary64 := .finite negative 0 leastExponent

/-- The power of a base with a whole exponent, as a numerator and a denominator. -/
def scale (base : Nat) (exponent : Int) : Nat × Nat :=
  (base.pow exponent.toNat, base.pow (-exponent).toNat)

/-- The nearest whole number to a ratio, the even one of two equally near ones. -/
def roundRatio (num den : Nat) : Nat :=
  let quotient := num / den
  let twice := 2 * (num % den)
  if twice < den then quotient
  else if den < twice then quotient + 1
  else quotient + quotient % 2

/-- The greatest `e` with `2 ^ e` at most the ratio, for a ratio of positive numbers. -/
def binaryMagnitude (num den : Nat) : Int :=
  let guess : Int := (num.log2 : Int) - (den.log2 : Int)
  let (up, down) := scale 2 guess
  if den * up ≤ num * down then guess else guess - 1

/-- The number nearest to a ratio of positive numbers. -/
def ofRatio (negative : Bool) (num den : Nat) : Binary64 :=
  let exponent := max leastExponent (binaryMagnitude num den - 52)
  let (up, down) := scale 2 exponent
  let significand := roundRatio (num * down) (den * up)
  let (significand, exponent) :=
    if significand = 2 * hiddenBit then (hiddenBit, exponent + 1) else (significand, exponent)
  if greatestExponent < exponent then .infinite negative else .finite negative significand exponent

/-- The number nearest to `digits * 10 ^ exponent`. Values of `10 ^ 310` and more are infinite and
values below `10 ^ (-330)` are zero, whatever their digits. -/
def ofDecimal (negative : Bool) (digits : Nat) (exponent : Int) : Binary64 :=
  if digits = 0 then zero negative
  else
    let point := (Nat.toDigits 10 digits).length + exponent
    if 310 < point then .infinite negative
    else if point < -330 then zero negative
    else
      let (up, down) := scale 10 exponent
      ofRatio negative (digits * up) down

def isInfinite : Binary64 → Bool
  | infinite _ => true
  | finite .. => false

/-- Numeric equality: the two zeros are equal. -/
def numEq : Binary64 → Binary64 → Bool
  | finite _ 0 _, finite _ 0 _ => true
  | a, b => a == b

end Binary64
end Ecma3
