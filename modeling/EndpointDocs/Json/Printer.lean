import EndpointDocs.Json.Value
import EndpointDocs.Number.Shortest

/-!
# Writing JSON text

`Json.pretty` puts every item and field on a line of its own, two spaces further in than its array
or object; empty ones stay on one line. `Json.compact` writes no space at all.
-/

namespace EndpointDocs.Json

open Number

/-- Numbers below `10 ^ 16` and from `0.00001` on have no exponent; an exponent has a sign. -/
def numberLayout : Layout := ⟨16, 5, "+"⟩

def renderNumber : JsonNumber → List Char
  | .int n => (toString n).toList
  | .float x => x.render numberLayout

def hexDigit (n : Nat) : Char :=
  if n < 10 then Char.ofNat ('0'.toNat + n) else Char.ofNat ('a'.toNat + n - 10)

/-- Quotes, backslashes and control characters are escaped, all else stands for itself. -/
def escapeChar (c : Char) : List Char :=
  if c == '"' then ['\\', '"']
  else if c == '\\' then ['\\', '\\']
  else if c == '\n' then ['\\', 'n']
  else if c == '\r' then ['\\', 'r']
  else if c == '\t' then ['\\', 't']
  else if c.toNat == 8 then ['\\', 'b']
  else if c.toNat == 12 then ['\\', 'f']
  else if c.toNat < 0x20 then
    ['\\', 'u', '0', '0', hexDigit (c.toNat / 16), hexDigit (c.toNat % 16)]
  else [c]

def quote (s : String) : List Char := '"' :: (s.toList.flatMap escapeChar ++ ['"'])

def newline (level : Nat) : List Char := '\n' :: List.replicate (2 * level) ' '

mutual

/-- The text of a value whose first line starts at `level`. -/
def prettyAt (level : Nat) : Json → List Char
  | .null => "null".toList
  | .bool b => (if b then "true" else "false").toList
  | .number n => renderNumber n
  | .string s => quote s
  | .array [] => ['[', ']']
  | .array (v :: vs) =>
    '[' :: (newline (level + 1) ++ prettyAt (level + 1) v ++ prettyItems (level + 1) vs ++
      newline level ++ [']'])
  | .object [] => ['{', '}']
  | .object ((k, v) :: fs) =>
    '{' :: (newline (level + 1) ++ quote k ++ [':', ' '] ++ prettyAt (level + 1) v ++
      prettyFields (level + 1) fs ++ newline level ++ ['}'])

/-- The items behind the first one. -/
def prettyItems (level : Nat) : List Json → List Char
  | [] => []
  | v :: vs => ',' :: (newline level ++ prettyAt level v ++ prettyItems level vs)

/-- The fields behind the first one. -/
def prettyFields (level : Nat) : List (String × Json) → List Char
  | [] => []
  | (k, v) :: fs =>
    ',' :: (newline level ++ quote k ++ [':', ' '] ++ prettyAt level v ++ prettyFields level fs)

end

/-- The value over several lines, without a newline at the end. -/
def pretty (v : Json) : String := String.ofList (prettyAt 0 v)

/-- Values with one text have the same characters. -/
theorem prettyAt_of_pretty {v w : Json} (h : v.pretty = w.pretty) :
    prettyAt 0 v = prettyAt 0 w := String.ofList_injective h

mutual

def compactChars : Json → List Char
  | .null => "null".toList
  | .bool b => (if b then "true" else "false").toList
  | .number n => renderNumber n
  | .string s => quote s
  | .array [] => ['[', ']']
  | .array (v :: vs) => '[' :: (compactChars v ++ compactItems vs)
  | .object [] => ['{', '}']
  | .object ((k, v) :: fs) => '{' :: (quote k ++ ':' :: (compactChars v ++ compactFields fs))

/-- The items behind the first one, with the closing bracket. -/
def compactItems : List Json → List Char
  | [] => [']']
  | v :: vs => ',' :: (compactChars v ++ compactItems vs)

/-- The fields behind the first one, with the closing brace. -/
def compactFields : List (String × Json) → List Char
  | [] => ['}']
  | (k, v) :: fs => ',' :: (quote k ++ ':' :: (compactChars v ++ compactFields fs))

end

/-- The value on one line without spaces. -/
def compact (v : Json) : String := String.ofList (compactChars v)

end EndpointDocs.Json
