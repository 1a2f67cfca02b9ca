/-!
# Letters and digits of ASCII

The digits that numbers are written with, in decimal and in hexadecimal, and texts in small
letters. Other scripts have digits and letters too, but the formats that are read here know only
those of ASCII.
-/

namespace EndpointDocs.Text

/-! ### Digits -/

/-- The value of a decimal digit. -/
def digitValue (c : Char) : Nat := c.toNat - '0'.toNat

/-- The value of a hexadecimal digit, whose letters may be large or small. -/
def hexDigitValue? (c : Char) : Option Nat :=
  if c.isDigit then some (digitValue c)
  else if 'a' ≤ c ∧ c ≤ 'f' then some (c.toNat - 'a'.toNat + 10)
  else if 'A' ≤ c ∧ c ≤ 'F' then some (c.toNat - 'A'.toNat + 10)
  else none

/-- The number that the values of its digits make, the highest digit first. -/
def natOfDigits (base : Nat) (values : List Nat) : Nat :=
  values.foldl (fun n d => n * base + d) 0

/-- The number that decimal digits spell. -/
def natOfDecimal (digits : List Char) : Nat := natOfDigits 10 (digits.map digitValue)

theorem isDigit_iff {c : Char} : c.isDigit = true ↔ '0' ≤ c ∧ c ≤ '9' :=
  Bool.and_eq_true_iff.trans (and_congr decide_eq_true_iff decide_eq_true_iff)

theorem digitValue_eq (c : Char) : digitValue c = c.toNat - 48 := rfl

theorem digitValue_le {c : Char} (h : c.isDigit = true) : digitValue c ≤ 9 := by
  have hc : c.toNat ≤ 57 := UInt32.le_iff_toNat_le.1 (isDigit_iff.1 h).2
  rw [digitValue_eq]
  omega

/-! ### Small letters -/

def lowerCase (s : String) : String := String.ofList (s.toList.map Char.toLower)

theorem lowerCase_eq_toLower (s : String) : lowerCase s = s.toLower := by
  rw [lowerCase, ← String.toList_map, String.ofList_toList]
  rfl

theorem isLower_iff {c : Char} : c.isLower = true ↔ 'a' ≤ c ∧ c ≤ 'z' :=
  Bool.and_eq_true_iff.trans (and_congr decide_eq_true_iff decide_eq_true_iff)

end EndpointDocs.Text
