/-!
# Finite binary floating-point numbers

A `Binary64` is a finite number of the 64-bit binary format, held as sign, significand and binary
exponent in plain integers, so that rounding is exact arithmetic on `Nat` and can be evaluated and
reasoned about.

`Magnitude.ofRatio? num den` is the magnitude nearest to `num / den`, a tie going to the even
significand, and `none` beyond the largest finite number. Products and quotients are that rounding
of the exact result.
-/

namespace EndpointDocs.Number

/-- The non-negative number `significand · 2 ^ exponent`. -/
structure Magnitude where
  significand : Nat
  exponent : Int
deriving DecidableEq, Repr, Inhabited

/-- A finite number with a sign; zero has one too. -/
structure Binary64 where
  negative : Bool
  magnitude : Magnitude
deriving DecidableEq, Repr, Inhabited

namespace Magnitude

/-- The exponent of zero and of the smallest positive numbers. -/
def minExponent : Int := -1074

/-- The largest exponent of a finite number. -/
def maxExponent : Int := 971

def zero : Magnitude := ⟨0, minExponent⟩

/-- The numerator of `significand · 2 ^ exponent` as a fraction. -/
def num (x : Magnitude) : Nat := x.significand * Nat.pow 2 x.exponent.toNat

/-- The denominator of `significand · 2 ^ exponent` as a fraction. -/
def den (x : Magnitude) : Nat := Nat.pow 2 (-x.exponent).toNat

/-- The integer nearest to `num / den`; of two equally near ones the even one. -/
def roundHalfEven (num den : Nat) : Nat :=
  let quotient := num / den
  let twice := 2 * (num % den)
  if twice < den then quotient
  else if den < twice then quotient + 1
  else quotient + quotient % 2

/-- The exponent at which `num / den` has a significand of 53 bits, or the least one there is. -/
def exponentFor (num den : Nat) : Int :=
  let low : Int := (Nat.log2 num : Int) - (Nat.log2 den : Int) - 53
  let fits := num * Nat.pow 2 (-low).toNat < Nat.pow 2 53 * (den * Nat.pow 2 low.toNat)
  max minExponent (if fits then low else low + 1)

/-- The magnitude nearest to `num / den`, ties to the even significand; `none` if it is not
finite. -/
def ofRatio? (num den : Nat) : Option Magnitude :=
  if num = 0 then some zero
  else
    let exponent := exponentFor num den
    let significand := roundHalfEven (num * Nat.pow 2 (-exponent).toNat)
      (den * Nat.pow 2 exponent.toNat)
    let (significand, exponent) :=
      if significand = Nat.pow 2 53 then (Nat.pow 2 52, exponent + 1) else (significand, exponent)
    if maxExponent < exponent then none else some ⟨significand, exponent⟩

def ofNat? (n : Nat) : Option Magnitude := ofRatio? n 1

def mul? (x y : Magnitude) : Option Magnitude := ofRatio? (x.num * y.num) (x.den * y.den)

/-- The rounded quotient; the divisor is not zero. -/
def div? (x y : Magnitude) : Option Magnitude := ofRatio? (x.num * y.den) (x.den * y.num)

end Magnitude

namespace Binary64

/-- Equality of values: the two zeros are equal. -/
def sameValue (x y : Binary64) : Bool :=
  x.magnitude == y.magnitude && (x.negative == y.negative || x.magnitude.significand == 0)

end Binary64

end EndpointDocs.Number
