import EndpointDocs.Number.Literal

/-!
# What a plain scalar means

A plain scalar of a YAML document is a null, a boolean, a number or a text, by its spelling alone.
`looksTyped` is the spelling of everything that is not a text: a text with such a spelling has to
be quoted when it is written, and `isNull` is what a reader takes as the absence of a text.
-/

namespace EndpointDocs.Yaml

open Number

def isNull (cs : List Char) : Bool :=
  cs.isEmpty || cs == ['~'] || cs == "null".toList || cs == "Null".toList || cs == "NULL".toList

def isBoolean (cs : List Char) : Bool :=
  ["true", "True", "TRUE", "false", "False", "FALSE"].any (fun s => s.toList == cs)

/-- The value of a digit in a base up to sixteen. -/
def digitIn? (base : Nat) (c : Char) : Option Nat :=
  let value :=
    if c.isDigit then c.toNat - '0'.toNat
    else if 'a' ≤ c && c ≤ 'f' then c.toNat - 'a'.toNat + 10
    else if 'A' ≤ c && c ≤ 'F' then c.toNat - 'A'.toNat + 10
    else base
  if value < base then some value else none

def natIn? (base : Nat) (cs : List Char) : Option Nat :=
  if cs.isEmpty then none
  else cs.foldlM (fun n c => (digitIn? base c).map (n * base + ·)) 0

/-- Digits behind a zero are a text, with or without a sign in front. -/
def isZeroPadded (cs : List Char) : Bool :=
  let digits := match cs with
    | '+' :: rest | '-' :: rest => rest
    | _ => cs
  match digits with
  | '0' :: c :: rest => (c :: rest).all Char.isDigit
  | _ => false

/-- The base that a number names in front of its digits. -/
def basePrefix? : List Char → Option (Nat × List Char)
  | '0' :: 'x' :: rest => some (16, rest)
  | '0' :: 'o' :: rest => some (8, rest)
  | '0' :: 'b' :: rest => some (2, rest)
  | _ => none

/-- Whether the digits of a number with a base stay below the limit. -/
def isBased (limit : Nat) (cs : List Char) : Bool :=
  match basePrefix? cs with
  | some (base, digits) => (natIn? base digits).any (· < limit)
  | none => false

def isBasedInteger (cs : List Char) : Bool :=
  match cs with
  | '-' :: rest => isBased (Nat.pow 2 127 + 1) rest
  | '+' :: rest => isBased (Nat.pow 2 128) rest
  | _ => isBased (Nat.pow 2 128) cs

/-- The digits of a decimal number: whole part, fraction and exponent. Either part may be empty,
but not both. -/
def decimalParts? (cs : List Char) : Option (List Char × List Char × Int) :=
  let whole := cs.takeWhile Char.isDigit
  let rest := cs.dropWhile Char.isDigit
  let (fraction, rest) := match rest with
    | '.' :: r => (r.takeWhile Char.isDigit, r.dropWhile Char.isDigit)
    | r => ([], r)
  if whole.isEmpty && fraction.isEmpty then none
  else match rest with
    | [] => some (whole, fraction, 0)
    | e :: r =>
      if e == 'e' || e == 'E' then
        let (down, digits) := match r with
          | '-' :: ds => (true, ds)
          | '+' :: ds => (false, ds)
          | ds => (false, ds)
        (natIn? 10 digits).map fun n => (whole, fraction, if down then -(n : Int) else n)
      else none

/-- Whether a decimal rounds to a finite number. -/
def isFinite (digits : List Char) (exponent : Int) : Bool :=
  let significant := digits.dropWhile (· == '0')
  let top : Int := significant.length + exponent
  if significant.isEmpty || top ≤ 308 then true
  else if 310 ≤ top then false
  else
    let n := Text.natOfDecimal significant
    (Magnitude.ofRatio? (n * Nat.pow 10 exponent.toNat) (Nat.pow 10 (-exponent).toNat)).isSome

def isDecimal (cs : List Char) : Bool :=
  let unsigned := match cs with
    | '+' :: rest | '-' :: rest => rest
    | _ => cs
  match decimalParts? unsigned with
  | some (whole, fraction, power) => isFinite (whole ++ fraction) (power - fraction.length)
  | none => false

/-- The spellings of the infinities and of the undefined number. -/
def isSpecialNumber (cs : List Char) : Bool :=
  [".inf", ".Inf", ".INF", "+.inf", "+.Inf", "+.INF", "-.inf", "-.Inf", "-.INF",
    ".nan", ".NaN", ".NAN"].any (fun s => s.toList == cs)

def looksTyped (cs : List Char) : Bool :=
  isNull cs || isBoolean cs || isBasedInteger cs || isZeroPadded cs || isDecimal cs ||
    isSpecialNumber cs

end EndpointDocs.Yaml
