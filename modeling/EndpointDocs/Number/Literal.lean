import EndpointDocs.Number.Binary64
import EndpointDocs.Text.Ascii

/-!
# Reading decimal literals

A literal with a fraction, an exponent or too many digits is read in three steps: as many leading
digits as fit into 64 bits become an integer, further digits only move the decimal point, and the
rounded integer is multiplied or divided by a rounded power of ten. Two roundings happen, so the
result may differ from the nearest number in its last digit.
-/

namespace EndpointDocs.Number

open Text (digitValue)

/-- A scaled integer on the way to a number: `significand · 10 ^ exponent`. -/
structure Scaled where
  significand : Nat
  exponent : Int
deriving DecidableEq, Repr

/-- The largest significand that is kept. -/
def maxSignificand : Nat := Nat.pow 2 64 - 1

/-- Read digits before the point: once one does not fit, it and all that follow scale by ten. -/
def Scaled.integerPart (digits : List Char) : Scaled :=
  let rec go : List Char → Nat → Scaled
    | [], acc => ⟨acc, 0⟩
    | c :: rest, acc =>
      let next := acc * 10 + digitValue c
      if maxSignificand < next then ⟨acc, (rest.length + 1 : Nat)⟩ else go rest next
  go digits 0

/-- Read digits behind the point: once one does not fit, it and all that follow are dropped. -/
def Scaled.fractionPart : List Char → Scaled → Scaled
  | [], s => s
  | c :: rest, s =>
    let next := s.significand * 10 + digitValue c
    if maxSignificand < next then s else fractionPart rest ⟨next, s.exponent - 1⟩

/-- The rounded power of ten with an exponent up to 308. -/
def powerOfTen (n : Nat) : Magnitude := (Magnitude.ofNat? (Nat.pow 10 n)).getD Magnitude.zero

/-- Divide by the largest power of ten until the exponent is in the table; `n` bounds the steps. -/
def scaleDown : Nat → Magnitude → Int → Option Magnitude
  | 0, x, _ => some x
  | n + 1, x, e =>
    if e.natAbs ≤ 308 then
      if 0 ≤ e then x.mul? (powerOfTen e.natAbs) else x.div? (powerOfTen e.natAbs)
    else if x.significand = 0 then some x
    else if 0 ≤ e then none
    else (x.div? (powerOfTen 308)).bind (scaleDown n · (e + 308))

/-- The number that a scaled integer stands for; `none` if it is too large. -/
def Scaled.toMagnitude? (s : Scaled) : Option Magnitude :=
  -- three divisions by `10 ^ 308` make any significand zero
  (Magnitude.ofNat? s.significand).bind (scaleDown 6 · s.exponent)

end EndpointDocs.Number
