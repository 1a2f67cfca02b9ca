import EndpointDocs.Json.Printer
import EndpointDocs.Yaml.Scalar

/-!
# Writing YAML text

`Yaml.render` writes a value in block style: one line for each entry of a mapping, one for each
item of a sequence, and no line is folded. A text stands plain when a reader takes it back as the
same text, else in single quotes; a text of several lines is a literal block, and what neither of
them can hold is written in double quotes with escapes. A key of several lines or of more than 128
bytes stands behind a `?`.
-/

namespace EndpointDocs.Yaml

open Number

/-- Numbers have no exponent below `10 ^ 16` and from `0.00001` on; a positive one has no sign. -/
def numberLayout : Layout := ⟨16, 5, ""⟩

/-! ### Which characters a style can hold -/

def isLineBreak (c : Char) : Bool :=
  c == '\n' || c == '\r' || c.toNat == 0x85 || c.toNat == 0x2028 || c.toNat == 0x2029

/-- The characters that may stand unescaped. -/
def isPrintable (c : Char) : Bool :=
  let n := c.toNat
  n == 0x0A || (0x20 ≤ n && n ≤ 0x7E) ||
    (0xA0 ≤ n && n != 0xFEFF && n != 0xFFFE && n != 0xFFFF)

/-- The end of a text counts as white space. -/
def isBlankOrEnd : Option Char → Bool
  | none => true
  | some c => c == ' ' || c == '\t' || c == Char.ofNat 0 || isLineBreak c

/-- Characters with a meaning at the start of a text. -/
def startIndicators : List Char :=
  ['#', ',', '[', ']', '{', '}', '&', '*', '!', '|', '>', '\'', '"', '%', '@', Char.ofNat 0x60]

/-- Whether the text starts like something else than a plain text. -/
def startsSpecial : List Char → Bool
  | [] => false
  | '-' :: '-' :: '-' :: _ | '.' :: '.' :: '.' :: _ => true
  | c :: rest =>
    startIndicators.contains c ||
      ((c == '?' || c == ':' || c == '-') && isBlankOrEnd rest.head?)

/-- Whether a colon in front of white space or a number sign behind it stands inside the text. -/
def hasInnerIndicator : Char → List Char → Bool
  | _, [] => false
  | before, c :: rest =>
    (c == ':' && isBlankOrEnd rest.head?) || (c == '#' && isBlankOrEnd (some before)) ||
      hasInnerIndicator c rest

/-- Whether two characters with the given properties stand side by side. -/
def hasPair (first second : Char → Bool) : List Char → Bool
  | a :: b :: rest => (first a && second b) || hasPair first second (b :: rest)
  | _ => false

/-- How a text can be written. -/
structure Fitness where
  multiline : Bool
  plain : Bool
  single : Bool
  literal : Bool

/-- The styles that can hold a text. -/
def fitness (cs : List Char) : Fitness :=
  let isSpace (c : Char) := c == ' '
  let edge (p : Char → Bool) : Bool :=
    (cs.head?.map p).getD false || (cs.getLast?.map p).getD false
  let trailingSpace := (cs.getLast?.map isSpace).getD false
  let escaped := hasPair isSpace isLineBreak cs || cs.any (fun c => !isPrintable c)
  let breakThenSpace := hasPair isLineBreak isSpace cs
  let breaks := cs.any isLineBreak
  let indicators := startsSpecial cs ||
    (match cs with | c :: rest => hasInnerIndicator c rest | [] => false)
  { multiline := breaks
    plain := !(edge isSpace || breaks || breakThenSpace || escaped || indicators)
    single := !(breakThenSpace || escaped)
    literal := !cs.isEmpty && !trailingSpace && !escaped }

/-! ### Scalars -/

def spaces (n : Nat) : List Char := List.replicate n ' '

/-- Hexadecimal digits in capitals, padded to `width`. -/
def hexDigits (width n : Nat) : List Char :=
  let digits := (Nat.toDigits 16 n).map Char.toUpper
  List.replicate (width - digits.length) '0' ++ digits

def escape (c : Char) : List Char :=
  match c.toNat with
  | 0x00 => ['\\', '0']
  | 0x07 => ['\\', 'a']
  | 0x08 => ['\\', 'b']
  | 0x09 => ['\\', 't']
  | 0x0A => ['\\', 'n']
  | 0x0B => ['\\', 'v']
  | 0x0C => ['\\', 'f']
  | 0x0D => ['\\', 'r']
  | 0x1B => ['\\', 'e']
  | 0x22 => ['\\', '"']
  | 0x5C => ['\\', '\\']
  | 0x85 => ['\\', 'N']
  | 0xA0 => ['\\', '_']
  | 0x2028 => ['\\', 'L']
  | 0x2029 => ['\\', 'P']
  -- all others by their number, in the shortest of three widths
  | n =>
    if n ≤ 0xFF then '\\' :: 'x' :: hexDigits 2 n
    else if n ≤ 0xFFFF then '\\' :: 'u' :: hexDigits 4 n
    else '\\' :: 'U' :: hexDigits 8 n

def doubleQuoted (cs : List Char) : List Char :=
  '"' :: (cs.flatMap (fun c =>
    if !isPrintable c || isLineBreak c || c == '"' || c == '\\' then escape c else [c]) ++ ['"'])

/-- Indent the lines of a text that are not empty; `fresh` says whether a line has just begun. -/
def indentLines (indent : Nat) : Bool → List Char → List Char
  | _, [] => []
  | fresh, c :: rest =>
    if isLineBreak c then c :: indentLines indent true rest
    else if fresh then spaces indent ++ c :: indentLines indent false rest
    else c :: indentLines indent false rest

/-- A quote inside single quotes is written twice; what stands behind a break is indented, the
closing quote too. -/
def singleQuoted (indent : Nat) (cs : List Char) : List Char :=
  let body := cs.flatMap fun c => if c == '\'' then ['\'', '\''] else [c]
  let closing := if (cs.getLast?.map isLineBreak).getD false then spaces indent else []
  '\'' :: (indentLines indent false body ++ closing ++ ['\''])

/-- A literal block. Its head says how far it is indented if the text does not show it, and whether
the line breaks at the end are dropped (`-`) or all kept (`+`). -/
def literalBlock (indent : Nat) (cs : List Char) : List Char :=
  let hint := match cs with
    -- such a text does not show that it is indented by two columns
    | c :: _ => if c == ' ' || isLineBreak c then ['2'] else []
    | [] => []
  let chomp := match cs.reverse with
    | [] => ['-']
    | [c] => if isLineBreak c then ['+'] else ['-']
    | c :: b :: _ => if !isLineBreak c then ['-'] else if isLineBreak b then ['+'] else []
  '|' :: (hint ++ chomp ++ '\n' :: indentLines indent true cs)

/-- A text whose own lines, if it has several, are indented by `indent`. -/
def text (indent : Nat) (cs : List Char) : List Char :=
  let fit := fitness cs
  if cs.contains '\n' then
    if fit.literal then literalBlock indent cs else doubleQuoted cs
  else if looksTyped cs || !fit.plain then
    if fit.single then singleQuoted indent cs else doubleQuoted cs
  else cs

/-- A text as the key of an entry on one line. -/
def keyText (cs : List Char) : List Char :=
  let fit := fitness cs
  if looksTyped cs || !fit.plain then
    if fit.single then singleQuoted 0 cs else doubleQuoted cs
  else cs

/-- Whether a key fits on the line of its entry. -/
def isSimpleKey (key : String) : Bool := !(key.toList.any isLineBreak) && key.utf8ByteSize ≤ 128

/-! ### Values -/

/-- Where a value stands. -/
inductive Place where
  /-- At the start of the document. -/
  | start
  /-- Behind an indicator of one character at the column of the collection. -/
  | indicator
  /-- Behind a key on the same line. -/
  | key

/-- End the line, unless a block of kept line breaks has ended it. -/
def endLine (cs : List Char) : List Char :=
  if (cs.getLast?.map isLineBreak).getD false then cs else cs ++ ['\n']

/-- A scalar or an empty collection stands on the line that it is met on. -/
def onLine (place : Place) (cs : List Char) : List Char :=
  match place with
  | .start => endLine cs
  | .indicator | .key => ' ' :: endLine cs

/-- The column of a collection inside one at column `indent`. -/
def column (place : Place) (indent : Nat) (isSequence : Bool) : Nat :=
  match place with
  | .start => indent
  | .indicator => indent + 2
  | .key => if isSequence then indent else indent + 2

/-- What leads to a collection at `column`: one behind an indicator starts on the same line. -/
def leadIn (place : Place) (column : Nat) : List Char :=
  match place with
  | .start => []
  | .indicator => [' ']
  | .key => '\n' :: spaces column

/-- The key of an entry at column `indent` with its colon. -/
def keyPart (indent : Nat) (key : String) : List Char :=
  if isSimpleKey key then keyText key.toList ++ [':']
  else '?' :: ' ' :: (endLine (text (indent + 2) key.toList) ++ spaces indent ++ [':'])

/-- Where the value behind the key stands. -/
def valuePlace (key : String) : Place := if isSimpleKey key then .key else .indicator

mutual

/-- The lines of a value that stands inside a collection at column `indent`. -/
def node (place : Place) (indent : Nat) : Json → List Char
  | .null => onLine place "null".toList
  | .bool b => onLine place (if b then "true" else "false").toList
  | .number (.int n) => onLine place (toString n).toList
  | .number (.float x) => onLine place (x.render numberLayout)
  | .string s => onLine place (text (indent + 2) s.toList)
  | .array [] => onLine place ['[', ']']
  | .object [] => onLine place ['{', '}']
  | .array (v :: vs) =>
    let column := column place indent true
    leadIn place column ++ '-' :: (node .indicator column v ++ items column vs)
  | .object ((k, v) :: fs) =>
    let column := column place indent false
    leadIn place column ++ keyPart column k ++ node (valuePlace k) column v ++ entries column fs

def items (indent : Nat) : List Json → List Char
  | [] => []
  | v :: vs => spaces indent ++ '-' :: (node .indicator indent v ++ items indent vs)

def entries (indent : Nat) : List (String × Json) → List Char
  | [] => []
  | (k, v) :: fs =>
    spaces indent ++ keyPart indent k ++ node (valuePlace k) indent v ++ entries indent fs

end

def render (v : Json) : String := String.ofList (node .start 0 v)

end EndpointDocs.Yaml
