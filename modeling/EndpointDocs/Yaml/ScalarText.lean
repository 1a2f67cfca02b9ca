import EndpointDocs.Text.Ascii
import EndpointDocs.Yaml.Cursor

/-!
# Texts of scalars

A scalar is written plain, in quotes, or as a block of lines. In the first two forms the lines are
folded: a single line end becomes a space, and of several the first is dropped. A block keeps its
line ends, or folds those between lines that are not indented further.
-/

namespace EndpointDocs.Yaml

open Scan

/-! ### White space between words -/

/-- White space between two words of a scalar. -/
structure Gap where
  /-- Blanks in front of the first line end. -/
  blanks : List Char
  breaks : List Char

namespace Gap

/-- The line ends as they are folded. -/
def fold : List Char → List Char
  | [] => []
  | c :: more => if c == '\n' then (if more.isEmpty then [' '] else more) else c :: more

/-- What the white space becomes. -/
def text (g : Gap) : List Char := if g.breaks.isEmpty then g.blanks else fold g.breaks

/-- The gap goes over a line end. -/
def isBroken (g : Gap) : Bool := !g.breaks.isEmpty

end Gap

/-- Take blanks at the start of a line; in the first `indent` columns there must be no tab. -/
def leadingBlanks (indent : Nat) : Scan Unit := do
  let blanks ← span isSpaceOrTab
  if (blanks.take indent).contains '\t' then failure

/-- Take line ends and the blanks at the start of lines; `n` bounds their number. -/
def gapBreaks (indent : Nat) : Nat → Scan (List Char)
  | 0 => return []
  | n + 1 => do
    match ← head? with
    | some c =>
      if isBreak c then
        next
        leadingBlanks indent
        return c :: (← gapBreaks indent n)
      else return []
    | none => return []

/-- Take white space; there must be no tab in the first `indent` columns of a line. -/
def gap (indent : Nat) : Scan Gap := do
  let blanks ← span isSpaceOrTab
  let breaks ← gapBreaks indent (← get).rest.length
  return ⟨blanks, breaks⟩

/-! ### Plain scalars -/

/-- Characters that separate nodes inside brackets. -/
def isFlowMark (c : Char) : Bool := ",[]{}".toList.contains c

/-- What stops a word of a plain scalar in front of a character. -/
inductive WordEnd where
  | goesOn | stops | refused
deriving DecidableEq

/-- Whether a word stops in front of a character with the given one behind it. -/
def wordEnd (inFlow : Bool) (c : Char) (behind : Option Char) : WordEnd :=
  if isBlankOrBreak c then .stops
  else if inFlow && c == ':' && behind.any (fun d => isFlowMark d || d == '?') then .refused
  else if c == ':' && (behind.map isBlankOrBreak).getD true then .stops
  else if inFlow && isFlowMark c then .stops
  else .goesOn

/-- Take a word of a plain scalar; `n` bounds its length. -/
def plainWord (inFlow : Bool) : Nat → Scan (List Char)
  | 0 => return []
  | n + 1 => do
    match ← head? with
    | none => return []
    | some c =>
      match wordEnd inFlow c (← second?) with
      | .refused => failure
      | .stops => return []
      | .goesOn =>
        next
        return c :: (← plainWord inFlow n)

/-- The words of a plain scalar behind the white space `before`, and whether the last white space
taken goes over a line end. The lines behind the first one start at column `indent` at least;
`n` bounds the number of words. -/
def plainWords (inFlow : Bool) (indent : Nat) : Nat → Gap → Scan (List Char × Bool)
  | 0, before => return ([], before.isBroken)
  | n + 1, before => do
    if (← get).atDocumentMark || (← isAt '#') then return ([], before.isBroken)
    else
      let word ← plainWord inFlow (← get).rest.length
      if word.isEmpty then return ([], before.isBroken)
      else
        let start := before.text ++ word
        if ← isAtSome isBlankOrBreak then
          let g ← gap indent
          if !inFlow && g.isBroken && (← get).column < indent then return (start, true)
          else
            let (more, broken) ← plainWords inFlow indent n g
            return (start ++ more, broken)
        else return (start, false)

/-- A plain scalar, and whether a line end was taken behind it. -/
def plainText (inFlow : Bool) (indent : Nat) : Scan (List Char × Bool) := do
  plainWords inFlow indent (← get).rest.length ⟨[], []⟩

/-! ### Quoted scalars -/

def escapedChar? (c : Char) : Option Char :=
  match c with
  | '0' => some (Char.ofNat 0)
  | 'a' => some (Char.ofNat 7)
  | 'b' => some (Char.ofNat 8)
  | 't' | '\t' => some '\t'
  | 'n' => some '\n'
  | 'v' => some (Char.ofNat 11)
  | 'f' => some (Char.ofNat 12)
  | 'r' => some '\r'
  | 'e' => some (Char.ofNat 27)
  | ' ' => some ' '
  | '"' => some '"'
  | '/' => some '/'
  | '\\' => some '\\'
  | 'N' => some (Char.ofNat 0x85)
  | '_' => some (Char.ofNat 0xA0)
  | 'L' => some (Char.ofNat 0x2028)
  | 'P' => some (Char.ofNat 0x2029)
  | _ => none

/-- The number of hexadecimal digits that an escape has. -/
def escapeLength? (c : Char) : Option Nat :=
  match c with
  | 'x' => some 2
  | 'u' => some 4
  | 'U' => some 8
  | _ => none

/-- Take hexadecimal digits behind those that make `value`. -/
def hexNumber : Nat → Nat → Scan Nat
  | 0, value => return value
  | n + 1, value => do
    match (← head?).bind Text.hexDigitValue? with
    | none => failure
    | some d =>
      next
      hexNumber n (value * 16 + d)

/-- Take an escape behind its backslash. -/
def escapedCharacter : Scan Char := do
  match ← head? with
  | none => failure
  | some c =>
    next
    match escapedChar? c, escapeLength? c with
    | some meaning, _ => return meaning
    | none, some n => do
      let code ← hexNumber n 0
      if Nat.isValidChar code then return Char.ofNat code else failure
    | none, none => failure

/-- Take a word inside quotes, and whether it ends with an escaped line end, which is taken. -/
def quotedWord (quote : Char) : Nat → Scan (List Char × Bool)
  | 0 => return ([], false)
  | n + 1 => do
    match ← head? with
    | none => return ([], false)
    | some c =>
      if isBlankOrBreak c then return ([], false)
      else if c == quote then
        -- two single quotes stand for one
        if quote == '\'' && (← second?) == some quote then
          next
          next
          let (more, cut) ← quotedWord quote n
          return (quote :: more, cut)
        else return ([], false)
      else if quote == '"' && c == '\\' then
        next
        -- an escaped line end joins the lines
        if ← isAtSome isBreak then
          next
          return ([], true)
        else
          let meaning ← escapedCharacter
          let (more, cut) ← quotedWord quote n
          return (meaning :: more, cut)
      else
        next
        let (more, cut) ← quotedWord quote n
        return (c :: more, cut)

/-- The words of a quoted scalar up to the closing quote; `n` bounds their number. -/
def quotedWords (quote : Char) : Nat → Scan (List Char)
  | 0 => failure
  | n + 1 => do
    let (word, cut) ← quotedWord quote (← get).rest.length
    if ← accept quote then return word
    else
      let g ← gap 0
      if (← get).atDocumentMark || (← head?).isNone then failure
      else
        let more ← quotedWords quote n
        return word ++ (if cut then g.breaks else g.text) ++ more

def quotedText (quote : Char) : Scan (List Char) := do
  next
  quotedWords quote ((← get).rest.length + 1)

/-! ### Blocks of lines -/

/-- What becomes of the line ends behind the last line. -/
inductive Chomping where
  | strip | clip | keep
deriving DecidableEq

/-- The signs behind the mark of a block. -/
structure BlockHeader where
  chomping : Chomping
  /-- How much further than its parent the block is indented, if this is given. -/
  increment : Option Nat

def chompingSign : Scan (Option Chomping) := do
  if ← accept '+' then return some .keep
  else if ← accept '-' then return some .strip
  else return none

def incrementDigit : Scan (Option Nat) := do
  match ← head? with
  | some c =>
    if c == '0' then failure
    else if c.isDigit then
      next
      return some (c.toNat - '0'.toNat)
    else return none
  | none => return none

/-- The two signs in either order, and the rest of their line. -/
def blockHeader : Scan BlockHeader := do
  let sign ← chompingSign
  let increment ← incrementDigit
  let late ← if sign.isNone && increment.isSome then chompingSign else pure none
  restOfLine
  return ⟨(sign <|> late).getD .clip, increment⟩

/-- Take blank lines and the indentation of the next line, which goes up to `limit` if this is
known. The line ends and the greatest indentation met come with it; `n` bounds their number. -/
def blankLines (limit : Option Nat) : Nat → Scan (List Char × Nat)
  | 0 => return ([], (← get).column)
  | n + 1 => do
    let start ← get
    let spaces := (start.rest.takeWhile (· == ' ')).length
    let width := (limit.map (min spaces)).getD spaces
    skip width
    let column := (← get).column
    if (limit.all (column < ·)) && (← isAt '\t') then failure
    match ← head? with
    | some c =>
      if isBreak c then
        next
        let (breaks, widest) ← blankLines limit n
        return (c :: breaks, max column widest)
      else return ([], column)
    | none => return ([], column)

/-- The lines of a block that start at column `indent`. `lead` is the line end in front, `before`
the blank lines behind it, and `further` says that the line before is indented further. -/
def blockLines (folded : Bool) (chomping : Chomping) (indent : Nat) :
    Nat → (lead before : List Char) → (further : Bool) → Scan (List Char)
  | 0, _, _, _ => failure
  | n + 1, lead, before, further => do
    if (← get).column == indent && (← head?).isSome then
      let blankHead ← isAtSome isSpaceOrTab
      let joined :=
        -- folding makes a blank of a single line end, unless one of the lines is indented further
        if folded && lead == ['\n'] && !further && !blankHead then
          (if before.isEmpty then [' '] else before)
        else lead ++ before
      let line ← span fun c => !isBreak c
      let lead ← span1 isBreak
      let (before, _) ← blankLines (some indent) (← get).rest.length
      let more ← blockLines folded chomping indent n lead before blankHead
      return joined ++ line ++ more
    -- what is left of the line ends depends on the chomping
    else
      match chomping with
      | .strip => return []
      | .clip => return lead
      | .keep => return lead ++ before
where
  span1 (p : Char → Bool) : Scan (List Char) := do
    match ← head? with
    | some c =>
      if p c then
        next
        return [c]
      else return []
    | none => return []

/-- A block of lines with its mark, inside a node that is indented by `parent` columns (-1 at the
top). -/
def blockText (parent : Int) : Scan (List Char) := do
  let folded ← isAt '>'
  next
  let header ← blockHeader
  let limit := header.increment.map fun k => if 0 ≤ parent then parent.toNat + k else k
  let (before, widest) ← blankLines limit ((← get).rest.length + 1)
  let indent := limit.getD (max widest (max (parent + 1).toNat 1))
  blockLines folded header.chomping indent ((← get).rest.length + 1) [] before false

end EndpointDocs.Yaml
