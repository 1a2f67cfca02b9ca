import EndpointDocs.Number.Binary64

/-!
# The shortest decimal text of a number

A number is written with the fewest decimal digits that read back to it; of the candidates with
that many digits the nearest one is taken.

`Magnitude.contains` is the set of decimals that read back: those nearer to the number than to its
two neighbours, the half-way points included when the significand is even. `digits` tries 1, 2, …
17 digits and looks at the two decimals next to the number on each grid. `Layout` holds what a
format decides about the digits: in JSON an exponent has a sign, in YAML a positive one has none.
-/

namespace EndpointDocs.Number

/-- The decimal `coefficient · 10 ^ exponent`. -/
structure Decimal where
  coefficient : Nat
  exponent : Int
deriving DecidableEq, Repr, Inhabited

namespace Decimal

def num (d : Decimal) : Nat := d.coefficient * Nat.pow 10 d.exponent.toNat

def den (d : Decimal) : Nat := Nat.pow 10 (-d.exponent).toNat

def digits (d : Decimal) : List Char := Nat.toDigits 10 d.coefficient

end Decimal

namespace Magnitude

/-- Whether the decimal lies in the interval of numbers that round to `x`. -/
def contains (x : Magnitude) (d : Decimal) : Bool :=
  let isEven := x.significand % 2 == 0
  -- in quarters of a unit in the last place
  let unit := d.den * x.num
  let value := 4 * d.num * x.den * x.significand
  let low := if x.significand == Nat.pow 2 52 && minExponent < x.exponent
    then 4 * x.significand - 1 else 4 * x.significand - 2
  let high := 4 * x.significand + 2
  if isEven then low * unit ≤ value && value ≤ high * unit
  else low * unit < value && value < high * unit

/-- The exponent of the decimal grid on which `x` has `count` digits. -/
def gridExponent (x : Magnitude) (count : Nat) : Int :=
  -- 30103 / 100000 is close to the decimal logarithm of two; the guess is one to three too low
  let bits : Int := (Nat.log2 x.num : Int) - (Nat.log2 x.den : Int)
  let guess : Int := bits * 30103 / 100000 - 2 - (count - 1 : Nat)
  let overflows (e : Int) : Bool :=
    Nat.pow 10 count * (x.den * Nat.pow 10 e.toNat) ≤ x.num * Nat.pow 10 (-e).toNat
  if overflows (guess + 2) then guess + 3
  else if overflows (guess + 1) then guess + 2
  else if overflows guess then guess + 1
  else guess

/-- The nearest decimal with `count` digits that reads back, if there is one. -/
def onGrid? (x : Magnitude) (count : Nat) : Option Decimal :=
  let e := x.gridExponent count
  let num := x.num * Nat.pow 10 (-e).toNat
  let den := x.den * Nat.pow 10 e.toNat
  let below : Decimal := ⟨num / den, e⟩
  let above : Decimal := ⟨num / den + 1, e⟩
  let twice := 2 * (num % den)
  let preferAbove := den < twice || (den == twice && (num / den) % 2 == 1)
  match x.contains below, x.contains above with
  | true, true => some (if preferAbove then above else below)
  | true, false => some below
  | false, true => some above
  | false, false => none

/-- Divide the coefficient by ten while it ends in zero. -/
def stripZeros : Nat → Decimal → Decimal
  | 0, d => d
  | n + 1, d =>
    if d.coefficient % 10 == 0 && d.coefficient != 0 then
      stripZeros n ⟨d.coefficient / 10, d.exponent + 1⟩
    else d

/-- The shortest decimal that reads back to `x`. -/
def shortest (x : Magnitude) : Decimal :=
  if x.significand = 0 then ⟨0, 0⟩
  else
    let found := (List.range 17).findSome? (fun i => x.onGrid? (i + 1))
    stripZeros 17 (found.getD ⟨x.num / x.den, 0⟩)

end Magnitude

/-- How a format lays out the digits of a number. -/
structure Layout where
  /-- Numbers below `10 ^ positionalBelow` are written without an exponent. -/
  positionalBelow : Int
  /-- The first digit that is not zero may stand this many places after the point. -/
  leadingPlaces : Int
  /-- What stands in front of a positive exponent. -/
  plus : String
deriving DecidableEq, Repr

/-- Digits with a point after the first `n` of them, at least one of them behind the point. -/
def withPoint (n : Nat) (digits : List Char) : List Char :=
  digits.take n ++ '.' :: (if digits.length ≤ n then ['0'] else digits.drop n)

/-- The text of a decimal in the given layout. -/
def Layout.render (layout : Layout) (d : Decimal) : List Char :=
  let digits := d.digits
  let top : Int := digits.length + d.exponent
  if d.coefficient = 0 then ['0', '.', '0']
  else if 0 ≤ d.exponent && top ≤ layout.positionalBelow then
    withPoint (digits.length + d.exponent.toNat) (digits ++ List.replicate d.exponent.toNat '0')
  else if 0 < top && top ≤ layout.positionalBelow then withPoint top.toNat digits
  else if -layout.leadingPlaces < top && top ≤ 0 then
    '0' :: '.' :: (List.replicate (-top).toNat '0' ++ digits)
  else
    let mantissa := if digits.length = 1 then digits else withPoint 1 digits
    let power := top - 1
    let sign := if power < 0 then ['-'] else layout.plus.toList
    mantissa ++ 'e' :: (sign ++ Nat.toDigits 10 power.natAbs)

/-- The text of a number: a sign if it is negative, then its shortest decimal. -/
def Binary64.render (layout : Layout) (x : Binary64) : List Char :=
  (if x.negative then ['-'] else []) ++ layout.render x.magnitude.shortest

end EndpointDocs.Number
