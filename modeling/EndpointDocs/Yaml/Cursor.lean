/-!
# A place in a YAML text

A `Cursor` is what is left of a text and how far it is from the start of its line. A `Scan` takes
characters from a cursor, or fails.

Line ends of all kinds are made one when a text is opened (`Cursor.ofText`); only the separators of
lines and paragraphs stay what they are.
-/

namespace EndpointDocs.Yaml

/-! ### Characters -/

def isBreak (c : Char) : Bool := c == '\n' || c.toNat == 0x2028 || c.toNat == 0x2029

def isSpaceOrTab (c : Char) : Bool := c == ' ' || c == '\t'

def isBlankOrBreak (c : Char) : Bool := isSpaceOrTab c || isBreak c

/-- Letters, digits, underscore and hyphen, of which names consist. -/
def isWordChar (c : Char) : Bool := c.isAlphanum || c == '_' || c == '-'

/-- Characters that a text may hold. -/
def isAllowed (c : Char) : Bool :=
  let n := c.toNat
  n == 9 || n == 10 || n == 13 || (0x20 ≤ n && n ≤ 0x7E) || n == 0x85 ||
    (0xA0 ≤ n && n ≤ 0xFFFD) || 0x10000 ≤ n

/-- One line end for all kinds. -/
def unifyBreaks : List Char → List Char
  | '\r' :: '\n' :: rest => '\n' :: unifyBreaks rest
  | c :: rest => (if c == '\r' || c.toNat == 0x85 then '\n' else c) :: unifyBreaks rest
  | [] => []

/-- The mark that may stand at the start of a text or line; it takes up a column. -/
def isByteOrderMark (c : Char) : Bool := c.toNat == 0xFEFF

/-! ### Cursors -/

structure Cursor where
  rest : List Char
  line : Nat := 0
  column : Nat := 0
  /-- How many characters have been taken. -/
  taken : Nat := 0
deriving Inhabited

namespace Cursor

/-- The start of a text; none if the text holds a character that is not allowed. -/
def ofText? (text : String) : Option Cursor :=
  if text.toList.all isAllowed then some { rest := unifyBreaks text.toList } else none

/-- The cursor behind a character that is in front of `rest`. -/
def pass (c : Cursor) (x : Char) (rest : List Char) : Cursor :=
  if isBreak x then ⟨rest, c.line + 1, 0, c.taken + 1⟩
  else ⟨rest, c.line, c.column + 1, c.taken + 1⟩

/-- The longest run of characters with a property, and the cursor behind it. -/
def span (p : Char → Bool) (c : Cursor) : List Char × Cursor := go c c.rest
where
  go (c : Cursor) : List Char → List Char × Cursor
    | [] => ([], c)
    | x :: rest =>
      if p x then
        let (run, behind) := go (c.pass x rest) rest
        (x :: run, behind)
      else ([], c)

/-- Three hyphens or points at the start of a line, with white space or the end behind them. -/
def atDocumentMark (c : Cursor) : Bool :=
  c.column == 0 && match c.rest with
    | '-' :: '-' :: '-' :: rest => (rest.head?.map isBlankOrBreak).getD true
    | '.' :: '.' :: '.' :: rest => (rest.head?.map isBlankOrBreak).getD true
    | _ => false

end Cursor

/-! ### Scanning -/

/-- Takes characters from a cursor, or fails. -/
abbrev Scan (α : Type) := StateT Cursor Option α

namespace Scan

def head? : Scan (Option Char) := return (← get).rest.head?

def second? : Scan (Option Char) := return (← get).rest.tail.head?

def isAt (c : Char) : Scan Bool := return (← head?) == some c

/-- The next character has a property; it has none at the end of the text. -/
def isAtSome (p : Char → Bool) : Scan Bool := return (← head?).any p

/-- White space or the end of the text is next. -/
def isAtBlankOrEnd : Scan Bool := return ((← head?).map isBlankOrBreak).getD true

def next : Scan Unit := modify fun c => match c.rest with
  | x :: rest => c.pass x rest
  | [] => c

def skip : Nat → Scan Unit
  | 0 => return ()
  | n + 1 => do
    next
    skip n

def expect (c : Char) : Scan Unit := do
  if ← isAt c then next else failure

/-- Take the given character if it is next; whether it was. -/
def accept (c : Char) : Scan Bool := do
  if ← isAt c then
    next
    return true
  else return false

/-- Take the longest run of characters with a property. -/
def span (p : Char → Bool) : Scan (List Char) := modifyGet fun c => c.span p

/-- Take spaces and tabs, a comment and the line end behind them, where nothing else may stand. -/
def restOfLine : Scan Unit := do
  let _ ← span isSpaceOrTab
  if ← isAt '#' then
    let _ ← span fun c => !isBreak c
  if ← isAtSome isBreak then next
  else if (← head?).isSome then failure

end Scan

end EndpointDocs.Yaml
