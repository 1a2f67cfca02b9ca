/-!
# Punycode

The ASCII form of a label of a domain name. The ASCII characters stand first, then a hyphen, then
the other characters in ascending order, each as the distance from the one before. A distance
counts both code points and places, and is written with digits of base 36 whose thresholds follow
the sizes of the distances seen so far.

`encode` writes a label, `decode?` reads one.
-/

namespace EndpointDocs.Punycode

/-! ### Digits -/

/-- The digit of a value below 36: letters first. -/
def digit (n : Nat) : Char :=
  if n < 26 then Char.ofNat (n + 'a'.toNat) else Char.ofNat (n - 26 + '0'.toNat)

def digitValue? (c : Char) : Option Nat :=
  if 'a' ≤ c ∧ c ≤ 'z' then some (c.toNat - 'a'.toNat)
  else if 'A' ≤ c ∧ c ≤ 'Z' then some (c.toNat - 'A'.toNat)
  else if '0' ≤ c ∧ c ≤ '9' then some (c.toNat - '0'.toNat + 26)
  else none

/-- The threshold of the digit at place `k`, which counts in steps of 36. -/
def threshold (bias k : Nat) : Nat :=
  if k ≤ bias then 1 else if bias + 26 ≤ k then 26 else k - bias

theorem threshold_bounds (bias k : Nat) : 1 ≤ threshold bias k ∧ threshold bias k ≤ 26 := by
  unfold threshold
  split
  · omega
  · split <;> omega

/-- The digits of a distance, from place `k` on. -/
def digits (bias k distance : Nat) : List Char :=
  let t := threshold bias k
  if distance < t then [digit distance]
  else digit (t + (distance - t) % (36 - t)) :: digits bias (k + 36) ((distance - t) / (36 - t))
termination_by distance
decreasing_by
  have := threshold_bounds bias k
  exact Nat.lt_of_le_of_lt (Nat.div_le_self _ _) (by omega)

/-- Read the digits of a distance; what is left of the text comes with it. -/
def distance? (bias k weight sum : Nat) : List Char → Option (Nat × List Char)
  | [] => none
  | c :: rest =>
    match digitValue? c with
    | none => none
    | some n =>
      let t := threshold bias k
      let sum := sum + n * weight
      if n < t then some (sum, rest)
      else distance? bias (k + 36) (weight * (36 - t)) sum rest

/-! ### The bias -/

/-- Divide by 35 until at most 455 is left; each division adds 36. -/
def damp (delta k : Nat) : Nat :=
  if 455 < delta then damp (delta / 35) (k + 36) else k + 36 * delta / (delta + 38)
termination_by delta
decreasing_by exact Nat.div_lt_self (by omega) (by omega)

/-- The bias behind a distance, when `count` characters have their place. -/
def adapt (distance count : Nat) (first : Bool) : Nat :=
  let delta := if first then distance / 700 else distance / 2
  damp (delta + delta / count) 0

/-! ### Writing -/

/-- How far the writing of a label has come. -/
structure Progress where
  out : List Char
  /-- The distance since the last written character. -/
  delta : Nat
  bias : Nat
  /-- How many characters have their place. -/
  placed : Nat

/-- Pass one character of the label while the character `code` is placed. -/
def pass (basic code : Nat) (p : Progress) (c : Char) : Progress :=
  if c.toNat < code then { p with delta := p.delta + 1 }
  else if c.toNat = code then
    { out := p.out ++ digits p.bias 36 p.delta
      delta := 0
      bias := adapt p.delta (p.placed + 1) (p.placed == basic)
      placed := p.placed + 1 }
  else p

/-- Place the given code points, which ascend from `from` on. -/
def place (label : List Char) (basic : Nat) : List Nat → Nat → Progress → Progress
  | [], _, p => p
  | code :: rest, start, p =>
    -- every code point that is skipped could stand at any place between those written
    let p := { p with delta := p.delta + (code - start) * (p.placed + 1) }
    let p := label.foldl (pass basic code) p
    place label basic rest (code + 1) { p with delta := p.delta + 1 }

/-- Add a number to an ascending list unless it is there. -/
def insertAscending (n : Nat) : List Nat → List Nat
  | [] => [n]
  | m :: rest =>
    if n < m then n :: m :: rest else if n = m then m :: rest else m :: insertAscending n rest

def encode (label : List Char) : List Char :=
  let ascii := label.filter fun c => c.toNat < 0x80
  let others := (label.map Char.toNat).filter fun n => 0x80 ≤ n
  let codes := others.foldl (fun codes n => insertAscending n codes) []
  let start := if ascii.isEmpty then [] else ascii ++ ['-']
  (place label ascii.length codes 0x80 ⟨start, 0, 72, ascii.length⟩).out

/-! ### Reading -/

/-- The rest of a text behind a distance is shorter. -/
theorem distance?_length {bias k weight sum : Nat} {cs rest : List Char} {n : Nat}
    (h : distance? bias k weight sum cs = some (n, rest)) : rest.length < cs.length := by
  induction cs generalizing k weight sum with
  | nil => simp [distance?] at h
  | cons c cs ih =>
    simp only [distance?] at h
    split at h
    · simp at h
    · split at h
      · simp only [Option.some.injEq, Prod.mk.injEq] at h
        simp [h.2]
      · have := ih h
        simp only [List.length_cons]
        omega

def insertAt {α : Type} (place : Nat) (a : α) (items : List α) : List α :=
  items.take place ++ a :: items.drop place

/-- Put the characters that the distances stand for in their places. -/
def insertAll? (cs : List Char) (code place bias : Nat) (label : List Char) :
    Option (List Char) :=
  if cs.isEmpty then some label
  else
    match _h : distance? bias 36 1 0 cs with
    | none => none
    | some (distance, rest) =>
      -- a distance that goes beyond the last place goes on at the next code point
      let count := label.length + 1
      let next := place + distance
      let code := code + next / count
      if Nat.isValidChar code then
        insertAll? rest code (next % count + 1) (adapt distance count (place == 0))
          (insertAt (next % count) (Char.ofNat code) label)
      else none
termination_by cs.length
decreasing_by exact distance?_length _h

def decode? (cs : List Char) : Option (List Char) :=
  let tail := (cs.reverse.takeWhile (· ≠ '-')).reverse
  let head := (cs.reverse.dropWhile (· ≠ '-')).tail.reverse
  if cs.all fun c => c.toNat < 0x80 then insertAll? tail 0x80 0 72 head else none

end EndpointDocs.Punycode
