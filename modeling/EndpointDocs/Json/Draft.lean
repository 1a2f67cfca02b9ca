import EndpointDocs.Json.Value
import EndpointDocs.Number.Literal

/-!
# Reading JSON text

    text ──Draft.read?──▶ Draft ──Draft.value?──▶ Json

A `Draft` is what the grammar alone says about a text. Its leaves may have no meaning: a number may
be too large, and the escapes of a string may leave half of a surrogate pair. A reader that skips a
part of a text (an unknown field, say) asks no more of that part than the grammar.

`Draft.value?` gives a draft its value. It refuses leaves without a meaning and more than
`Json.maxDepth` nested arrays and objects.
-/

namespace EndpointDocs

open Number Text

/-- How deep arrays and objects may nest in a text that is read. -/
def Json.maxDepth : Nat := 127

/-- A text that has JSON's grammar; the leaves without a meaning are `none`. -/
inductive Draft where
  | null
  | bool (value : Bool)
  | number (value : Option JsonNumber)
  | string (value : Option String)
  | array (items : List Draft)
  | object (fields : List (Option String × Draft))
deriving Repr, Inhabited

namespace Draft

def isSpace (c : Char) : Bool := c == ' ' || c == '\n' || c == '\t' || c == '\r'

def skipSpace (cs : List Char) : List Char := cs.dropWhile isSpace

/-! ### Numbers -/

structure NumberParts where
  negative : Bool
  whole : List Char
  /-- The digits behind the point, if there is one. -/
  fraction : Option (List Char)
  /-- Whether the exponent is negative, and its digits. -/
  power : Option (Bool × List Char)

/-- The number that a literal means; `none` if it is too large. -/
def NumberParts.meaning (p : NumberParts) : Option JsonNumber :=
  let n := natOfDecimal p.whole
  match p.fraction, p.power, p.negative with
  | none, none, false => if n < Nat.pow 2 64 then some (.int n) else scaled p.negative
  | none, none, true => if 0 < n && n ≤ Nat.pow 2 63 then some (.int (-n)) else scaled p.negative
  | _, _, _ => scaled p.negative
where
  scaled (negative : Bool) : Option JsonNumber :=
    let digits := Scaled.fractionPart (p.fraction.getD []) (Scaled.integerPart p.whole)
    let shift : Int := match p.power with
      | none => 0
      | some (down, ds) => if down then -(natOfDecimal ds : Int) else natOfDecimal ds
    (Scaled.toMagnitude? ⟨digits.significand, digits.exponent + shift⟩).map
      (fun m => .float ⟨negative, m⟩)

/-- Split off a run of decimal digits, which must not be empty. -/
def digits? (cs : List Char) : Option (List Char × List Char) :=
  match cs.takeWhile Char.isDigit with
  | [] => none
  | ds => some (ds, cs.dropWhile Char.isDigit)

/-- The part behind the point, if the text goes on with one. -/
def fraction? : List Char → Option (Option (List Char) × List Char)
  | '.' :: cs => (digits? cs).map (fun (ds, rest) => (some ds, rest))
  | cs => some (none, cs)

/-- The exponent, if the text goes on with one. -/
def power? : List Char → Option (Option (Bool × List Char) × List Char)
  | 'e' :: cs | 'E' :: cs =>
    let (down, cs) := match cs with
      | '+' :: r => (false, r)
      | '-' :: r => (true, r)
      | r => (false, r)
    (digits? cs).map (fun (ds, rest) => (some (down, ds), rest))
  | cs => some (none, cs)

/-- Read a number literal: a zero stands alone in front of the point. -/
def number? (cs : List Char) : Option (NumberParts × List Char) := do
  let (negative, cs) := match cs with
    | '-' :: r => (true, r)
    | r => (false, r)
  let (whole, cs) ← match cs with
    | '0' :: r => if (r.head?.map Char.isDigit).getD false then none else some (['0'], r)
    | _ => digits? cs
  let (fraction, cs) ← fraction? cs
  let (power, cs) ← power? cs
  return (⟨negative, whole, fraction, power⟩, cs)

/-! ### Strings -/

def hex4? (a b c d : Char) : Option Nat := do
  return natOfDigits 16 [← hexDigitValue? a, ← hexDigitValue? b, ← hexDigitValue? c,
    ← hexDigitValue? d]

def shortEscape? : Char → Option Char
  | '"' => some '"'
  | '\\' => some '\\'
  | '/' => some '/'
  | 'b' => some (Char.ofNat 8)
  | 'f' => some (Char.ofNat 12)
  | 'n' => some '\n'
  | 'r' => some '\r'
  | 't' => some '\t'
  | _ => none

/-- The code points up to the closing quote; an escape may give half of a surrogate pair. -/
def codePoints? : List Char → Option (List Nat × List Char)
  | [] => none
  | '"' :: rest => some ([], rest)
  | '\\' :: 'u' :: a :: b :: c :: d :: rest => do
    let n ← hex4? a b c d
    let (ns, rest) ← codePoints? rest
    return (n :: ns, rest)
  | '\\' :: e :: rest => do
    let c ← shortEscape? e
    let (ns, rest) ← codePoints? rest
    return (c.toNat :: ns, rest)
  | c :: rest =>
    if c.toNat < 0x20 || c == '\\' then none
    else (codePoints? rest).map (fun (ns, rest) => (c.toNat :: ns, rest))

/-- Join surrogate pairs; `none` if half of a pair stands alone. -/
def joinPairs? : List Nat → Option (List Char)
  | [] => some []
  | [n] => if 0xD800 ≤ n && n ≤ 0xDFFF then none else some [Char.ofNat n]
  | n :: m :: rest =>
    if 0xD800 ≤ n && n ≤ 0xDBFF then
      if 0xDC00 ≤ m && m ≤ 0xDFFF then
        (joinPairs? rest).map (Char.ofNat (0x10000 + (n - 0xD800) * 0x400 + (m - 0xDC00)) :: ·)
      else none
    else if 0xDC00 ≤ n && n ≤ 0xDFFF then none
    else (joinPairs? (m :: rest)).map (Char.ofNat n :: ·)

/-- Read the rest of a string behind its opening quote. -/
def string? (cs : List Char) : Option (Option String × List Char) :=
  (codePoints? cs).map (fun (ns, rest) => ((joinPairs? ns).map String.ofList, rest))

/-! ### Values -/

mutual

/-- Read one value. Between two nested values there is at most one call for the list that holds
them, and each value takes at least one character, so twice the number of characters bounds the
nested calls `n`. -/
def value (n : Nat) (cs : List Char) : Option (Draft × List Char) :=
  match n with
  | 0 => none
  | n + 1 =>
    match skipSpace cs with
    | 'n' :: 'u' :: 'l' :: 'l' :: rest => some (.null, rest)
    | 't' :: 'r' :: 'u' :: 'e' :: rest => some (.bool true, rest)
    | 'f' :: 'a' :: 'l' :: 's' :: 'e' :: rest => some (.bool false, rest)
    | '"' :: rest => (string? rest).map (fun (s, rest) => (.string s, rest))
    | '[' :: rest =>
      -- an empty list is closed at once, so that a comma always has an item behind it
      match skipSpace rest with
      | ']' :: rest => some (.array [], rest)
      | _ => (items n rest).map (fun (vs, rest) => (.array vs, rest))
    | '{' :: rest =>
      match skipSpace rest with
      | '}' :: rest => some (.object [], rest)
      | _ => (fields n rest).map (fun (fs, rest) => (.object fs, rest))
    -- what starts no other value is a number or nothing
    | cs => (number? cs).map (fun (p, rest) => (.number p.meaning, rest))

/-- Read the items of an array up to its closing bracket. -/
def items (n : Nat) (cs : List Char) : Option (List Draft × List Char) :=
  match n with
  | 0 => none
  | n + 1 =>
    match value n cs with
    | none => none
    | some (v, rest) =>
      match skipSpace rest with
      | ']' :: rest => some ([v], rest)
      | ',' :: rest => (items n rest).map (fun (vs, rest) => (v :: vs, rest))
      | _ => none

/-- Read the fields of an object up to its closing brace. -/
def fields (n : Nat) (cs : List Char) : Option (List (Option String × Draft) × List Char) :=
  match n with
  | 0 => none
  | n + 1 =>
    match skipSpace cs with
    | '"' :: rest =>
      match string? rest with
      | none => none
      | some (key, rest) =>
        match skipSpace rest with
        | ':' :: rest =>
          match value n rest with
          | none => none
          | some (v, rest) =>
            match skipSpace rest with
            | '}' :: rest => some ([(key, v)], rest)
            | ',' :: rest => (fields n rest).map (fun (fs, rest) => ((key, v) :: fs, rest))
            | _ => none
        | _ => none
    | _ => none

end

/-- An array that is not closed at once is read item by item. -/
theorem value_open (n : Nat) {cs : List Char} (h : ∀ rest, skipSpace cs ≠ ']' :: rest) :
    value (n + 1) ('[' :: cs) = (items n cs).map fun p => (.array p.1, p.2) := by
  show (match skipSpace cs with
    | ']' :: rest => some (Draft.array [], rest)
    | _ => (items n cs).map fun p : List Draft × List Char => (Draft.array p.1, p.2)) = _
  split
  · next rest hclose => exact absurd hclose (h rest)
  · rfl

theorem value_brace (n : Nat) {cs : List Char} (h : ∀ rest, skipSpace cs ≠ '}' :: rest) :
    value (n + 1) ('{' :: cs) = (fields n cs).map fun p => (.object p.1, p.2) := by
  show (match skipSpace cs with
    | '}' :: rest => some (Draft.object [], rest)
    | _ => (fields n cs).map fun p : List (Option String × Draft) × List Char =>
      (Draft.object p.1, p.2)) = _
  split
  · next rest hclose => exact absurd hclose (h rest)
  · rfl

/-- A field is read up to the end of its value. -/
theorem fields_quote {n : Nat} {cs text more rest : List Char} {key : Option String} {d : Draft}
    (hquote : skipSpace cs = '"' :: text) (hkey : string? text = some (key, ':' :: more))
    (hd : value n more = some (d, rest)) :
    fields (n + 1) cs =
      match skipSpace rest with
      | '}' :: rest => some ([(key, d)], rest)
      | ',' :: rest => (fields n rest).map fun p => ((key, d) :: p.1, p.2)
      | _ => none := by
  rw [fields, hquote]
  show (match string? text with
    | none => none
    | some (key, rest) => _) = _
  rw [hkey]
  show (match value n more with
    | none => none
    | some (v, rest) => _) = _
  generalize value n more = found at hd ⊢
  subst hd
  rfl

/-- The draft of the characters of a whole text; only space may follow the value. -/
def ofChars? (cs : List Char) : Option Draft :=
  match value (2 * cs.length + 1) cs with
  | some (d, rest) => if (skipSpace rest).isEmpty then some d else none
  | none => none

def read? (text : String) : Option Draft := ofChars? text.toList

/-! ### Meaning -/

mutual

/-- The value of a draft inside `depth` arrays and objects. -/
def valueAt? (depth : Nat) : Draft → Option Json
  | .null => some .null
  | .bool b => some (.bool b)
  | .number n => n.map .number
  | .string s => s.map .string
  | .array vs => if depth < Json.maxDepth then (itemsAt? (depth + 1) vs).map .array else none
  | .object fs =>
    if depth < Json.maxDepth then
      (fieldsAt? (depth + 1) fs).map (fun fs => .object (Entries.ofList fs))
    else none

def itemsAt? (depth : Nat) : List Draft → Option (List Json)
  | [] => some []
  | v :: vs => do return (← valueAt? depth v) :: (← itemsAt? depth vs)

def fieldsAt? (depth : Nat) : List (Option String × Draft) → Option (List (String × Json))
  | [] => some []
  | (k, v) :: fs => do return ((← k), (← valueAt? depth v)) :: (← fieldsAt? depth fs)

end

/-- The value of a draft: objects become sorted maps in which the last of equal keys stays. -/
def value? (d : Draft) : Option Json := d.valueAt? 0

mutual

/-- The draft that a value comes from. -/
def ofJson : Json → Draft
  | .null => .null
  | .bool b => .bool b
  | .number n => .number (some n)
  | .string s => .string (some s)
  | .array vs => .array (ofItems vs)
  | .object fs => .object (ofFields fs)

def ofItems : List Json → List Draft
  | [] => []
  | v :: vs => ofJson v :: ofItems vs

def ofFields : List (String × Json) → List (Option String × Draft)
  | [] => []
  | (k, v) :: fs => (some k, ofJson v) :: ofFields fs

end

end Draft

def Json.read? (text : String) : Option Json := (Draft.read? text).bind Draft.value?

end EndpointDocs
