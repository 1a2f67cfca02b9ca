import EndpointDocs.Text.Ascii
import EndpointDocs.Text.Blank
import EndpointDocs.Text.Identifier

/-!
# Tokens of Rust source text

    text ──lexemes?──▶ List Lexeme ──nest?──▶ List Token

A text is cut into lexemes, and what stands between matching delimiters becomes one group token.
Comments and white space separate tokens; a documentation comment is read as the attribute that it
abbreviates, `#[doc = "…"]`. A text has no tokens at all if some character starts none or if its
delimiters do not match.
-/

namespace EndpointDocs.Source

inductive Delimiter where
  | parens
  | braces
  | brackets
deriving DecidableEq, Repr

/-- A literal. Only texts and numbers are looked into. -/
inductive Literal where
  | text (value : String)
  | number (digits : String)
  | other
deriving DecidableEq, Repr

/-- An identifier by its form, or a raw one with its `r#`. -/
def isName : List Char → Bool
  | 'r' :: '#' :: name => Text.isIdentifier name
  | cs => Text.isIdentifier cs

/-- An identifier or keyword; a raw one keeps its `r#`. -/
structure Word where
  text : String
  isName_text : isName text.toList = true
deriving Repr

inductive Token where
  | word (name : Word)
  | lifetime (name : String)
  /-- One punctuation character; a joint one has another right behind it. -/
  | mark (char : Char) (joint : Bool)
  | literal (value : Literal)
  | group (delimiter : Delimiter) (body : List Token)
deriving Repr, Inhabited

/-- A token, or one side of a group. -/
inductive Lexeme where
  | token (t : Token)
  | opening (d : Delimiter)
  | closing (d : Delimiter)

namespace Lexer

/-! ### White space and comments -/

/-- White space between tokens; the two direction marks count as well. -/
def isSpace (c : Char) : Bool :=
  Text.isBlank c || c.toNat == 0x200E || c.toNat == 0x200F

/-- The rest of a line and what is behind it, the line break included; a carriage return in front
of the line feed belongs to the break. -/
def splitLine : List Char → List Char × List Char
  | [] => ([], [])
  | '\n' :: rest => ([], '\n' :: rest)
  | '\r' :: '\n' :: rest => ([], '\r' :: '\n' :: rest)
  | c :: rest => let (line, rest) := splitLine rest; (c :: line, rest)

/-- The inside of a block comment behind its opening, and what follows it; block comments nest. -/
def blockComment? : Nat → List Char → Option (List Char × List Char)
  | _, [] => none
  | depth, '*' :: '/' :: rest =>
    if depth = 0 then some ([], rest)
    else (blockComment? (depth - 1) rest).map fun (cs, rest) => ('*' :: '/' :: cs, rest)
  | depth, '/' :: '*' :: rest =>
    (blockComment? (depth + 1) rest).map fun (cs, rest) => ('/' :: '*' :: cs, rest)
  | depth, c :: rest => (blockComment? depth rest).map fun (cs, rest) => (c :: cs, rest)

/-- A comment that is no documentation: what follows it. -/
def afterComment? : List Char → Option (List Char)
  -- four slashes are no documentation, three are
  | '/' :: '/' :: '/' :: '/' :: rest => some (splitLine rest).2
  | '/' :: '/' :: '/' :: _ => none
  | '/' :: '/' :: '!' :: _ => none
  | '/' :: '/' :: rest => some (splitLine rest).2
  | '/' :: '*' :: '*' :: '/' :: rest => some rest
  | '/' :: '*' :: '*' :: '*' :: rest => (blockComment? 0 ('*' :: '*' :: rest)).map Prod.snd
  | '/' :: '*' :: '*' :: _ => none
  | '/' :: '*' :: '!' :: _ => none
  | '/' :: '*' :: rest => (blockComment? 0 rest).map Prod.snd
  | _ => none

/-- Drop white space and comments; `n` bounds the number of pieces dropped. -/
def skipSpace : Nat → List Char → List Char
  | 0, cs => cs
  | n + 1, cs =>
    match afterComment? cs with
    | some rest => skipSpace n rest
    | none =>
      match cs with
      | c :: rest => if isSpace c then skipSpace n rest else cs
      | [] => []

/-- A documentation comment: whether it documents what encloses it, its text and what follows. -/
def docComment? (cs : List Char) : Option (Bool × List Char × List Char) :=
  let found : Option (Bool × List Char × List Char) :=
    match cs with
    | '/' :: '/' :: '!' :: rest => let (line, rest) := splitLine rest; some (true, line, rest)
    | '/' :: '*' :: '!' :: rest => (blockComment? 0 rest).map fun (cs, rest) => (true, cs, rest)
    | '/' :: '/' :: '/' :: rest => let (line, rest) := splitLine rest; some (false, line, rest)
    | '/' :: '*' :: '*' :: rest => (blockComment? 0 rest).map fun (cs, rest) => (false, cs, rest)
    | _ => none
  found.bind fun d => if hasBareReturn d.2.1 then none else found
where
  /-- Whether a carriage return stands without a line feed behind it. -/
  hasBareReturn : List Char → Bool
    | [] => false
    | '\r' :: '\n' :: rest => hasBareReturn rest
    | '\r' :: _ => true
    | _ :: rest => hasBareReturn rest

/-- The attribute that a documentation comment abbreviates. -/
def docAttribute (inner : Bool) (text : List Char) : List Lexeme :=
  [.token (.mark '#' inner)] ++ (if inner then [.token (.mark '!' false)] else []) ++
    [.opening .brackets, .token (.word ⟨"doc", by decide⟩), .token (.mark '=' false),
      .token (.literal (.text (String.ofList text))), .closing .brackets]

/-! ### Words and numbers -/

/-- The identifier in front, and what follows it. -/
def identifier? : List Char → Option (List Char × List Char)
  | c :: rest =>
    if Text.isIdentifierStart c then
      some (c :: rest.takeWhile Text.isIdentifierContinue, rest.dropWhile Text.isIdentifierContinue)
    else none
  | [] => none

theorem isIdentifier_of_identifier? {cs name rest : List Char}
    (h : identifier? cs = some (name, rest)) : Text.isIdentifier name = true := by
  cases cs with
  | nil => cases h
  | cons c cs =>
    rw [identifier?] at h
    split at h
    · next hc =>
      cases h
      have hall : (cs.takeWhile Text.isIdentifierContinue).all Text.isIdentifierContinue = true :=
        List.all_takeWhile
      simp only [Text.isIdentifier, hc, hall, Bool.and_self]
    · cases h

/-- An identifier that may be raw. A raw one is not one of the words that name a path's start. -/
def word? : List Char → Option (List Char × List Char)
  | 'r' :: '#' :: rest =>
    match identifier? rest with
    | some (name, rest) =>
      if ["_", "super", "self", "Self", "crate"].any (fun w => w.toList == name) then none
      else some ('r' :: '#' :: name, rest)
    | none => none
  | cs => identifier? cs

theorem isName_of_isIdentifier {cs : List Char} (h : Text.isIdentifier cs = true) :
    isName cs = true := by
  unfold isName
  split
  · next name => simp [Text.isIdentifier, Text.isIdentifierContinue] at h
  · exact h

theorem isName_of_word? {cs name rest : List Char} (h : word? cs = some (name, rest)) :
    isName name = true := by
  unfold word? at h
  split at h
  · split at h
    · next found =>
      split at h
      · cases h
      · cases h
        exact isIdentifier_of_identifier? found
    · cases h
  · exact isName_of_isIdentifier (isIdentifier_of_identifier? h)

/-- Drop the suffix of a literal. -/
def afterSuffix (cs : List Char) : List Char := ((identifier? cs).map Prod.snd).getD cs

def isDigitOrBar (c : Char) : Bool := c.isDigit || c == '_'

/-- The exponent of a number behind its `e`: signs and digits, of which one must be a digit. -/
def exponent? (cs : List Char) : Option (List Char × List Char) :=
  let bars := cs.takeWhile (· == '_')
  let (sign, rest) := match cs.dropWhile (· == '_') with
    | '+' :: r => (['+'], r)
    | '-' :: r => (['-'], r)
    | r => ([], r)
  let digits := rest.takeWhile isDigitOrBar
  if digits.any Char.isDigit then some (bars ++ sign ++ digits, rest.dropWhile isDigitOrBar)
  else none

/-- A number with a point or an exponent. The point is not followed by a second one or a name. -/
def float? (cs : List Char) : Option (List Char × List Char) :=
  let whole := cs.takeWhile isDigitOrBar
  let rest := cs.dropWhile isDigitOrBar
  if !((whole.head?.map Char.isDigit).getD false) then none
  else
    let (point, rest) := match rest with
      | '.' :: r => ('.' :: r.takeWhile isDigitOrBar, r.dropWhile isDigitOrBar)
      | r => ([], r)
    -- the point belongs to a range or to a member
    let blocked := match point, rest with
      | ['.'], c :: _ => c == '.' || Text.isIdentifierStart c
      | '.' :: c :: _, _ => c == '_'
      | _, _ => false
    if blocked then none
    else
      match rest with
      | e :: r =>
        if e == 'e' || e == 'E' then
          match exponent? r with
          | some (power, r) => some (whole ++ point ++ e :: power, r)
          | none => if point.isEmpty then none else some (whole ++ point, rest)
        else if point.isEmpty then none else some (whole ++ point, rest)
      | [] => if point.isEmpty then none else some (whole ++ point, [])

/-- The digits of an integer in base ten, or behind `0x`, `0o` or `0b` in that base. -/
def integer? (cs : List Char) : Option (List Char × List Char) :=
  let (base, lead, rest) := match cs with
    | '0' :: 'x' :: r => (16, ['0', 'x'], r)
    | '0' :: 'o' :: r => (8, ['0', 'o'], r)
    | '0' :: 'b' :: r => (2, ['0', 'b'], r)
    | r => (10, [], r)
  let isDigit (c : Char) : Bool :=
    isDigitOrBar c || (base == 16 && ('a' ≤ c && c ≤ 'f' || 'A' ≤ c && c ≤ 'F'))
  -- a decimal digit that the base does not have is taken all the same, and refused then
  let digits := rest.takeWhile isDigit
  let tooLarge := digits.any fun c => c.isDigit && base ≤ c.toNat - '0'.toNat
  let startsWithBar := base == 10 && (digits.head?.map (· == '_')).getD false
  if digits.all (· == '_') || tooLarge || startsWithBar then none
  else some (lead ++ digits, rest.dropWhile isDigit)

/-- A number literal with its suffix. -/
def number? (cs : List Char) : Option (Literal × List Char) :=
  ((float? cs).orElse fun _ => integer? cs).bind fun (digits, rest) =>
    let rest' := afterSuffix rest
    match rest' with
    | c :: _ =>
      if Text.isIdentifierContinue c then none
      else some (.number (String.ofList digits), rest')
    | [] => some (.number (String.ofList digits), [])

/-! ### Texts and characters -/

inductive Quoted where
  | text
  | bytes
  | terminated
deriving DecidableEq

/-- The digits of a code point up to the closing brace: one to six, with underscores between. -/
def codePoint? : Nat → Nat → List Char → Option (Nat × List Char)
  | _, _, [] => none
  | count, value, c :: rest =>
    if c == '_' && 0 < count then codePoint? count value rest
    else if c == '}' && 0 < count then some (value, rest)
    else
      match Text.hexDigitValue? c with
      | some d => if count = 6 then none else codePoint? (count + 1) (value * 16 + d) rest
      | none => none

/-- The character that an escape stands for, behind its backslash. -/
def escape? (kind : Quoted) : List Char → Option (Char × List Char)
  | 'n' :: rest => some ('\n', rest)
  | 'r' :: rest => some ('\r', rest)
  | 't' :: rest => some ('\t', rest)
  | '\\' :: rest => some ('\\', rest)
  | '\'' :: rest => some ('\'', rest)
  | '"' :: rest => some ('"', rest)
  -- a terminated text cannot hold the zero character
  | '0' :: rest => if kind = .terminated then none else some (Char.ofNat 0, rest)
  | 'x' :: a :: b :: rest =>
    match Text.hexDigitValue? a, Text.hexDigitValue? b with
    | some a, some b =>
      let n := a * 16 + b
      -- only bytes go beyond ASCII
      if (kind = .text && 0x7F < n) || (kind = .terminated && n = 0) then none
      else some (Char.ofNat n, rest)
    | _, _ => none
  | 'u' :: '{' :: rest =>
    if kind = .bytes then none
    else
      match codePoint? 0 0 rest with
      | some (n, rest) =>
        -- surrogates and numbers beyond the last plane are no characters
        if (0xD800 ≤ n && n ≤ 0xDFFF) || 0x10FFFF < n || (kind = .terminated && n = 0) then none
        else some (Char.ofNat n, rest)
      | none => none
  | _ => none

/-- White space that a backslash at the end of a line swallows; something must follow it. -/
def afterContinuation? : List Char → Option (List Char)
  | [] => none
  | '\r' :: '\n' :: rest => afterContinuation? rest
  | '\r' :: _ => none
  | c :: rest =>
    if c == ' ' || c == '\t' || c == '\n' then afterContinuation? rest else some (c :: rest)

/-- The contents of a quoted literal up to its closing quote; `n` bounds the number of steps. -/
def quoted? (kind : Quoted) : Nat → List Char → Option (List Char × List Char)
  | 0, _ => none
  | n + 1, cs =>
    match cs with
    | [] => none
    | '"' :: rest => some ([], rest)
    | '\r' :: '\n' :: rest => (quoted? kind n rest).map fun (cs, r) => ('\n' :: cs, r)
    | '\r' :: _ => none
    | '\\' :: '\n' :: rest => (afterContinuation? rest).bind (quoted? kind n)
    | '\\' :: '\r' :: '\n' :: rest => (afterContinuation? rest).bind (quoted? kind n)
    | '\\' :: rest =>
      (escape? kind rest).bind fun (c, rest) =>
        (quoted? kind n rest).map fun (cs, r) => (c :: cs, r)
    | c :: rest =>
      if (kind = .bytes && 0x80 ≤ c.toNat) || (kind = .terminated && c.toNat = 0) then none
      else (quoted? kind n rest).map fun (cs, r) => (c :: cs, r)

def startsWithSigns : Nat → List Char → Bool
  | 0, _ => true
  | n + 1, '#' :: rest => startsWithSigns n rest
  | _, _ => false

/-- The contents of a raw literal up to a quote with as many signs as opened it. -/
def rawContents? (kind : Quoted) (signs : Nat) : List Char → Option (List Char × List Char)
  | [] => none
  | '\r' :: '\n' :: rest =>
    (rawContents? kind signs rest).map fun (cs, r) => ('\r' :: '\n' :: cs, r)
  | '\r' :: _ => none
  | c :: rest =>
    if c == '"' && startsWithSigns signs rest then some ([], rest.drop signs)
    else if (kind = .bytes && 0x80 ≤ c.toNat) || (kind = .terminated && c.toNat = 0) then none
    else (rawContents? kind signs rest).map fun (cs, r) => (c :: cs, r)

/-- A raw literal behind its `r`. -/
def raw? (kind : Quoted) (cs : List Char) : Option (List Char × List Char) :=
  let signs := (cs.takeWhile (· == '#')).length
  match cs.drop signs with
  | '"' :: rest => if 255 < signs then none else rawContents? kind signs rest
  | _ => none

/-- A character literal behind its opening quote: what follows it. -/
def character? (kind : Quoted) (cs : List Char) : Option (List Char) :=
  let behind := match cs with
    | '\\' :: rest => (escape? kind rest).map Prod.snd
    | c :: rest => if kind = .bytes && 0x80 ≤ c.toNat then none else some rest
    | [] => none
  match behind with
  | some ('\'' :: rest) => some (afterSuffix rest)
  | _ => none

def text? (cs : List Char) : Option (List Char × List Char) :=
  match cs with
  | '"' :: rest => quoted? .text (rest.length + 1) rest
  | 'r' :: rest => raw? .text rest
  | _ => none

/-- A literal of another kind: a byte, bytes or a text with a closing zero; what follows it. -/
def afterBytes? : List Char → Option (List Char)
  | 'b' :: '"' :: rest => (quoted? .bytes (rest.length + 1) rest).map fun r => afterSuffix r.2
  | 'b' :: 'r' :: rest => (raw? .bytes rest).map fun r => afterSuffix r.2
  | 'c' :: '"' :: rest => (quoted? .terminated (rest.length + 1) rest).map fun r => afterSuffix r.2
  | 'c' :: 'r' :: rest => (raw? .terminated rest).map fun r => afterSuffix r.2
  | 'b' :: '\'' :: rest => character? .bytes rest
  | '\'' :: rest => character? .text rest
  | _ => none

def literal? (cs : List Char) : Option (Literal × List Char) :=
  match text? cs with
  | some (value, rest) => some (.text (String.ofList value), afterSuffix rest)
  | none =>
    match afterBytes? cs with
    | some rest => some (.other, rest)
    | none => number? cs

/-! ### Lexemes -/

def isMark (c : Char) : Bool := "~!@#$%^&*-=+|;:,<.>/?'".toList.contains c

/-- Whether a punctuation character is in front; a comment is none. -/
def startsWithMark : List Char → Bool
  | '/' :: '/' :: _ | '/' :: '*' :: _ => false
  | c :: _ => isMark c
  | [] => false

/-- A text that starts like a literal is no word. -/
def startsLikeLiteral (cs : List Char) : Bool :=
  ["r\"", "r#\"", "r##", "b\"", "b'", "br\"", "br#", "c\"", "cr\"", "cr#"].any fun p =>
    p.toList.isPrefixOf cs

def lifetime? (cs : List Char) : Option (List Char × List Char) :=
  match word? cs with
  | some (_, '\'' :: _) => none
  | some (name, '#' :: rest) =>
    if ['r', '#'].isPrefixOf name then some (name, '#' :: rest) else none
  | some (name, rest) => some (name, rest)
  | none => none

def leaf? (cs : List Char) : Option (Token × List Char) :=
  match literal? cs with
  | some (value, rest) => some (.literal value, rest)
  | none =>
    match cs with
    | '\'' :: rest =>
      (lifetime? rest).map fun (name, rest) => (.lifetime (String.ofList name), rest)
    | c :: rest =>
      if startsWithMark cs then some (.mark c (startsWithMark rest), rest)
      else if startsLikeLiteral cs then none
      else
        match found : word? cs with
        | some (name, rest) =>
          some (.word ⟨String.ofList name, by simpa using isName_of_word? found⟩, rest)
        | none => none
    | [] => none

/-- The lexemes of a text; `n` bounds their number. -/
def lexemes? : Nat → List Char → Option (List Lexeme)
  | 0, _ => none
  | n + 1, cs =>
    let cs := skipSpace (cs.length + 1) cs
    match docComment? cs with
    | some (inner, text, rest) => (lexemes? n rest).map (docAttribute inner text ++ ·)
    | none =>
      match cs with
      | [] => some []
      | '(' :: rest => (lexemes? n rest).map (.opening .parens :: ·)
      | '[' :: rest => (lexemes? n rest).map (.opening .brackets :: ·)
      | '{' :: rest => (lexemes? n rest).map (.opening .braces :: ·)
      | ')' :: rest => (lexemes? n rest).map (.closing .parens :: ·)
      | ']' :: rest => (lexemes? n rest).map (.closing .brackets :: ·)
      | '}' :: rest => (lexemes? n rest).map (.closing .braces :: ·)
      | cs => (leaf? cs).bind fun (t, rest) => (lexemes? n rest).map (.token t :: ·)

/-- Put groups together. The stack holds the groups still open, each with the tokens in front of
it, and `done` the tokens of the innermost one; both run backwards. -/
def nest? : List Lexeme → List (Delimiter × List Token) → List Token → Option (List Token)
  | [], [], done => some done.reverse
  | [], _ :: _, _ => none
  | .token t :: rest, stack, done => nest? rest stack (t :: done)
  | .opening d :: rest, stack, done => nest? rest ((d, done) :: stack) []
  | .closing d :: rest, (e, before) :: stack, done =>
    if d = e then nest? rest stack (.group d done.reverse :: before) else none
  | .closing _ :: _, [], _ => none

/-- The text without a byte order mark in front. -/
def withoutMark : List Char → List Char
  | c :: rest => if c.toNat = 0xFEFF then rest else c :: rest
  | [] => []

end Lexer

def tokens? (cs : List Char) : Option (List Token) :=
  let cs := Lexer.withoutMark cs
  (Lexer.lexemes? (cs.length + 1) cs).bind (Lexer.nest? · [] [])

end EndpointDocs.Source
