import EndpointDocs.Text.Blank
import EndpointDocs.Text.SmallLetter
import EndpointDocs.Text.Split
import EndpointDocs.Url.Punycode

/-!
# Domain names

A domain name is compared and written in its ASCII form: small letters, and each label with other
characters in Punycode behind `xn--`. Characters that are only a different way to write others are
replaced first: wide, circled and mathematical forms, ligatures, large letters, and the full stops
of other scripts. A label that is written in Punycode already must be the form that this makes of
it.

## Which names are covered

Names all in ASCII are treated as the standard of internationalised names says, except that of a
label behind `xn--` less is asked than there. With other characters the form is the standard one for
names of letters and digits in composed form, written from left to right, whose other ways of
writing are those of the tables below and of `Text.smallForm`. Beyond these the form may be another
one, or a name may be taken that the standard refuses, because of what is left out:

* characters are not composed or reordered: a letter with a combining mark behind it stays two
  characters, and so does a precomposed one that the standard decomposes;
* the table of other forms is that of Latin letters and digits, ligatures and wide forms; those of
  other scripts (half-width kana, Arabic presentation forms, CJK compatibility characters) stay;
* a label is not checked for unassigned characters, a combining mark in front, joiners out of place
  (U+200C and U+200D), or the order of characters written from right to left.

No other part of a location goes through this: paths, ports, user names and the hosts of schemes
that are not known are written as they are, in percent form.
-/

namespace EndpointDocs.Url.DomainName

open Text

/-- Characters that leave no trace in a name. -/
def isIgnored (c : Char) : Bool :=
  let n := c.toNat
  n == 0xAD || n == 0x34F || (0x180B ≤ n && n ≤ 0x180D) || n == 0x180F || n == 0x200B ||
    n == 0x2060 || n == 0x2064 || (0xFE00 ≤ n && n ≤ 0xFE0F) || n == 0xFEFF

/-- Full stops of other scripts, which separate labels as the point does. -/
def isFullStop (c : Char) : Bool := c.toNat == 0x3002 || c.toNat == 0xFF0E || c.toNat == 0xFF61

/-- Runs of characters that are other forms of the letters from `a` on, again and again. -/
def letterForms : List (Nat × Nat) := [(0x24B6, 0x24CF), (0x24D0, 0x24E9), (0x1D400, 0x1D6A3)]

/-- Runs of characters that are other forms of the digits: the first, the last, and the digit of
the first. -/
def digitForms : List (Nat × Nat × Nat) :=
  [(0x2074, 0x2079, 4), (0x2080, 0x2089, 0), (0x2460, 0x2468, 1), (0x1D7CE, 0x1D7FF, 0)]

/-- Characters that stand for the given letters. -/
def spelledForms : List (Nat × String) :=
  [(0xAA, "a"), (0xB2, "2"), (0xB3, "3"), (0xB5, "μ"), (0xB9, "1"), (0xBA, "o"),
    (0x130, "i\u0307"), (0x132, "ij"), (0x133, "ij"), (0x17F, "s"), (0x1C4, "dž"), (0x1C5, "dž"),
    (0x1C6, "dž"),
    (0x1C7, "lj"), (0x1C8, "lj"), (0x1C9, "lj"), (0x1CA, "nj"), (0x1CB, "nj"), (0x1CC, "nj"),
    (0x1F1, "dz"), (0x1F2, "dz"), (0x1F3, "dz"), (0x2070, "0"), (0x2071, "i"), (0x207F, "n"),
    (0x2116, "no"), (0x2120, "sm"), (0x2121, "tel"), (0x2122, "tm"), (0xFB00, "ff"),
    (0xFB01, "fi"), (0xFB02, "fl"), (0xFB03, "ffi"), (0xFB04, "ffl"), (0xFB05, "st"),
    (0xFB06, "st")]

/-- The letter or digit that a character is another form of. -/
def plainForm? (n : Nat) : Option Char :=
  match letterForms.find? fun run => run.1 ≤ n && n ≤ run.2 with
  | some run => some (Char.ofNat ('a'.toNat + (n - run.1) % 26))
  | none =>
    (digitForms.find? fun run => run.1 ≤ n && n ≤ run.2.1).map fun run =>
      Char.ofNat ('0'.toNat + (n - run.1 + run.2.2) % 10)

/-- The characters that stand in the name for the given one. -/
def standard (c : Char) : List Char :=
  let n := c.toNat
  if n < 0x80 then [c.toLower]
  else if isFullStop c then ['.']
  else if 0xFF01 ≤ n && n ≤ 0xFF5E then [(Char.ofNat (n - 0xFEE0)).toLower]
  else match spelledForms.find? fun f => f.1 == n with
    | some (_, letters) => letters.toList
    | none => [(plainForm? n).getD (smallForm c)]

def standardize (cs : List Char) : List Char :=
  (cs.filter fun c => !isIgnored c).flatMap standard

/-- ASCII characters that no name holds. -/
def isForbiddenAscii (c : Char) : Bool :=
  c.toNat ≤ 0x20 || c.toNat == 0x7F || "%#/:<>?@[\\]^|".toList.contains c

/-- Other characters that no name holds: white space, controls, marks of direction, private use
and code points that are no characters. -/
def isForbiddenOther (c : Char) : Bool :=
  let n := c.toNat
  isBlank c || (0x80 ≤ n && n ≤ 0x9F) || (0x200E ≤ n && n ≤ 0x200F) ||
    (0x202A ≤ n && n ≤ 0x202E) || (0x2061 ≤ n && n ≤ 0x206F) || (0xE000 ≤ n && n ≤ 0xF8FF) ||
    (0xFDD0 ≤ n && n ≤ 0xFDEF) || (0xFFF9 ≤ n && n ≤ 0xFFFF) || 0xE0000 ≤ n

def isForbidden (c : Char) : Bool :=
  if c.toNat < 0x80 then isForbiddenAscii c else isForbiddenOther c

/-- What stands in front of a label in Punycode. -/
def encodedMark : List Char := ['x', 'n', '-', '-']

/-- A label behind the mark is the form of a label that is standard and not all ASCII. -/
def isEncodedForm (body : List Char) : Bool :=
  match Punycode.decode? body with
  | none => false
  | some label =>
    (label.any fun c => 0x80 ≤ c.toNat) && standardize label == label &&
      (label.all fun c => !isForbidden c) && !label.contains '.' && Punycode.encode label == body

/-- The ASCII form of a label. -/
def label? (cs : List Char) : Option (List Char) :=
  if cs.any fun c => 0x80 ≤ c.toNat then
    -- its form would carry the mark twice
    if encodedMark.isPrefixOf cs then none else some (encodedMark ++ Punycode.encode cs)
  else if encodedMark.isPrefixOf cs then
    if isEncodedForm (cs.drop encodedMark.length) then some cs else none
  else some cs

/-- The ASCII form of a name. -/
def ascii? (cs : List Char) : Option (List Char) :=
  let name := standardize cs
  if name.any isForbidden then none
  else ((splitAt '.' name).mapM label?).map (joinWith '.')

end EndpointDocs.Url.DomainName
