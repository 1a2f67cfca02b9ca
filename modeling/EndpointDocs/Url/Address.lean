import EndpointDocs.Text.Percent
import EndpointDocs.Text.Split

/-!
# Numeric hosts

A host whose last part is a number is an address of four bytes. Its parts may be decimal, octal
(`0` in front) or hexadecimal (`0x` in front); the last one fills all bytes that the others leave.

A host in brackets is an address of eight groups of sixteen bits. Two colons stand for one or more
groups that are zero, and the last two groups may be written as four decimal bytes. Written out,
the first of the longest runs of two or more zero groups is shortened.
-/

namespace EndpointDocs.Url

open Text

/-- The value of a digit in a base up to sixteen. -/
def digitBelow? (base : Nat) (c : Char) : Option Nat :=
  (hexDigitValue? c).bind fun n => if n < base then some n else none

/-! ### Four bytes -/

/-- The number of one part; its base shows in its first characters. -/
def numberPart? : List Char → Option Nat
  | [] => none
  | '0' :: 'x' :: cs | '0' :: 'X' :: cs => (cs.mapM (digitBelow? 16)).map (natOfDigits 16)
  | '0' :: c :: cs => ((c :: cs).mapM (digitBelow? 8)).map (natOfDigits 8)
  | cs => (cs.mapM (digitBelow? 10)).map (natOfDigits 10)

/-- The parts between the points, without the empty one behind a point at the end. -/
def numericParts (host : List Char) : List (List Char) :=
  let parts := splitAt '.' host
  if parts.length > 1 ∧ parts.getLast? = some [] then parts.dropLast else parts

/-- The last part of a host is a number, so the host must be an address. -/
def endsInNumber (host : List Char) : Bool :=
  match (numericParts host).getLast? with
  | some part => (!part.isEmpty && part.all Char.isDigit) || (numberPart? part).isSome
  | none => false

/-- The address of the given numbers: one byte each, and the last one in all bytes left. -/
def addressOf? (place : Nat) : List Nat → Option Nat
  | [] => none
  | [n] => if n < Nat.pow 256 place then some n else none
  | n :: rest =>
    if n < 256 then (addressOf? (place - 1) rest).map (n * Nat.pow 256 (place - 1) + ·) else none

/-- The address that a numeric host stands for. -/
def address4? (host : List Char) : Option Nat := do
  let parts := numericParts host
  if parts.length > 4 then none
  else addressOf? 4 (← parts.mapM numberPart?)

def renderAddress4 (n : Nat) : String :=
  ".".intercalate ([3, 2, 1, 0].map fun k => toString (n / Nat.pow 256 k % 256))

/-! ### Eight groups -/

/-- A group of one to four hexadecimal digits. -/
def group? (cs : List Char) : Option Nat :=
  if cs.isEmpty ∨ 4 < cs.length then none
  else (cs.mapM hexDigitValue?).map (natOfDigits 16)

/-- A decimal byte without zeros in front. -/
def byte? (cs : List Char) : Option Nat :=
  if cs.isEmpty ∨ (cs.head? = some '0' ∧ 1 < cs.length) then none
  else do
    let n := natOfDigits 10 (← cs.mapM (digitBelow? 10))
    if n < 256 then some n else none

/-- Two groups written as four decimal bytes. -/
def bytesAsGroups? (cs : List Char) : Option (List Nat) := do
  match ← (splitAt '.' cs).mapM byte? with
  | [a, b, c, d] => some [a * 256 + b, c * 256 + d]
  | _ => none

/-- Groups between colons; only the last piece may be written as bytes. -/
def groups? : List (List Char) → Option (List Nat)
  | [] => some []
  | [piece] => if '.' ∈ piece then bytesAsGroups? piece else (group? piece).map ([·])
  | piece :: rest => do return (← group? piece) :: (← groups? rest)

/-- The text in front of the first two colons and the text behind them. -/
def splitAtGap? : List Char → Option (List Char × List Char)
  | ':' :: ':' :: rest => some ([], rest)
  | c :: rest => (splitAtGap? rest).map fun (before, after) => (c :: before, after)
  | [] => none

/-- The groups of a text, which may be empty. -/
def groupsOfText? (cs : List Char) : Option (List Nat) :=
  if cs.isEmpty then some [] else groups? (splitAt ':' cs)

/-- The address that the text between brackets stands for. -/
def address6? (cs : List Char) : Option (List Nat) := do
  match splitAtGap? cs with
  | none =>
    let groups ← groupsOfText? cs
    if groups.length = 8 then some groups else none
  | some (before, after) =>
    let left ← groupsOfText? before
    let right ← groupsOfText? after
    if '.' ∈ before ∨ 7 < left.length + right.length then none
    else some (left ++ List.replicate (8 - (left.length + right.length)) 0 ++ right)

def zerosInFront (groups : List Nat) : Nat := (groups.takeWhile (· == 0)).length

/-- Place and length of the longest run of zeros from place `i` on; the first one of several. -/
def longestZeros (i : Nat) : List Nat → Nat × Nat
  | [] => (i, 0)
  | n :: rest =>
    let here := zerosInFront (n :: rest)
    let (j, length) := longestZeros (i + 1) rest
    if here < length then (j, length) else (i, here)

/-- A group in hexadecimal digits without zeros in front. -/
def renderGroup (n : Nat) : String := String.ofList (Nat.toDigits 16 n)

def renderGroups (groups : List Nat) : String := ":".intercalate (groups.map renderGroup)

/-- The eight groups of an address, with the longest run of zeros shortened. -/
def renderAddress6 (groups : List Nat) : String :=
  let (place, length) := longestZeros 0 groups
  if length < 2 then renderGroups groups
  else renderGroups (groups.take place) ++ "::" ++ renderGroups (groups.drop (place + length))

end EndpointDocs.Url
