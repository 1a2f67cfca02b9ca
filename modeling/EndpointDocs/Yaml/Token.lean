import EndpointDocs.Yaml.ScalarText

/-!
# Tokens of a YAML text

    text ──tokens?──▶ List Token

The structure of a block is its indentation: a deeper column opens a block, a smaller one closes
blocks. That a node is the key of a mapping shows only at the colon behind it. So a *slot* is put
in front of every node that may be a key, and the colon decides what comes into the slot of the last
one: the start of a mapping, perhaps, and the sign of a key (`Layout.tokens`).

A node may be a key without a sign of its own only if it and the colon stand on one line, at most
1024 characters apart.
-/

namespace EndpointDocs.Yaml

inductive Token where
  | version (major minor : Nat)
  | handle (name start : String)
  | documentStart
  | documentEnd
  | blockSequence
  | blockMapping
  | blockEnd
  | flowSequence
  | flowSequenceEnd
  | flowMapping
  | flowMappingEnd
  | entry
  | comma
  | key
  | value
  | reference (name : String)
  | anchor (name : String)
  | tag (handle rest : String)
  | scalar (isPlain : Bool) (text : String)
deriving DecidableEq, Repr

/-! ### The layout of a text -/

/-- A node that is a key if a colon follows. -/
structure PossibleKey where
  slot : Nat
  /-- At this column of a block nothing but a key may stand. -/
  required : Bool
  line : Nat
  column : Nat
  taken : Nat

/-- A token, or a place where the sign of a key may be needed. -/
inductive Placed where
  | token (t : Token)
  | slot (n : Nat)

/-- What has been read of a text so far. -/
structure Layout where
  cursor : Cursor
  /-- The column of the innermost block, -1 outside of blocks, and those around it. -/
  indent : Int := -1
  outer : List Int := []
  /-- A node that is a key may start here. -/
  keyAllowed : Bool := true
  /-- The last possible key inside each open bracket, the innermost first; the last one is outside
  of brackets. -/
  keys : List (Option PossibleKey) := [none]
  /-- The tokens read, the last one first. -/
  placed : List Placed := []
  slots : Nat := 0
  /-- The slots of keys, and whether a mapping starts there. -/
  keySlots : List (Nat × Bool) := []

namespace Layout

def inFlow (l : Layout) : Bool := 1 < l.keys.length

def emit (l : Layout) (t : Token) : Layout := { l with placed := .token t :: l.placed }

/-- What a token or slot has become. -/
def settle (keySlots : List (Nat × Bool)) : Placed → List Token
  | .token t => [t]
  | .slot n =>
    match keySlots.find? (·.1 == n) with
    | some (_, true) => [.blockMapping, .key]
    | some (_, false) => [.key]
    | none => []

/-- The tokens in order, with the signs of keys in their slots. -/
def tokens (l : Layout) : List Token := l.placed.reverse.flatMap (settle l.keySlots)

/-- Close the blocks that are indented further than a column. -/
def closeBlocks (column : Int) (l : Layout) : Layout :=
  if l.inFlow then l
  else
    let all := l.indent :: l.outer
    let closed := all.takeWhile (column < ·)
    let ends := closed.map fun _ => Placed.token .blockEnd
    match all.dropWhile (column < ·) with
    | indent :: outer => { l with indent, outer, placed := ends ++ l.placed }
    | [] => l

/-- Open a block at a column, if it is indented further than the innermost one. -/
def openBlock (column : Nat) (start : Token) (l : Layout) : Layout :=
  if !l.inFlow && l.indent < column then
    { l with indent := column, outer := l.indent :: l.outer }.emit start
  else l

/-- Give up the last possible key; it must not be required. -/
def dropKey? (l : Layout) : Option Layout :=
  match l.keys with
  | some k :: rest => if k.required then none else some { l with keys := none :: rest }
  | _ => some l

/-- Note that the node to come may be a key. -/
def saveKey? (l : Layout) : Option Layout :=
  if l.keyAllowed then
    l.dropKey?.map fun l =>
      let c := l.cursor
      -- at the column of the block around it, so it is the next entry of that block
      let required := !l.inFlow && l.indent == c.column
      let k : PossibleKey := ⟨l.slots, required, c.line, c.column, c.taken⟩
      { l with
        keys := some k :: l.keys.tail, placed := .slot l.slots :: l.placed, slots := l.slots + 1 }
  else some l

/-- Give up the possible keys that a colon here would be too far from. -/
def dropStaleKeys? (l : Layout) : Option Layout := do
  let isStale := fun k : PossibleKey =>
    decide (k.line < l.cursor.line) || decide (k.taken + 1024 < l.cursor.taken)
  let keys ← l.keys.mapM fun k => match k with
    | some k => if isStale k then (if k.required then none else some none) else some (some k)
    | none => some none
  return { l with keys }

/-- A colon makes the last possible key a key. -/
def settleKey (k : PossibleKey) (l : Layout) : Layout :=
  let startsMapping := !l.inFlow && decide (l.indent < k.column)
  let l := { l with
    keys := none :: l.keys.tail
    keySlots := (k.slot, startsMapping) :: l.keySlots
    keyAllowed := false }
  if startsMapping then { l with indent := k.column, outer := l.indent :: l.outer } else l

end Layout

/-- Reads tokens into a layout, or fails. -/
abbrev Lexing (α : Type) := StateT Layout Option α

namespace Lexing

/-- Take characters. -/
def scan {α : Type} (s : Scan α) : Lexing α := fun l =>
  (s l.cursor).map fun (a, cursor) => (a, { l with cursor })

/-- Change the layout, or fail. -/
def change (f : Layout → Option Layout) : Lexing Unit := fun l => (f l).map fun l => ((), l)

def emit (t : Token) : Lexing Unit := modify (·.emit t)

def allowKey (allowed : Bool) : Lexing Unit := modify fun l => { l with keyAllowed := allowed }

/-! ### Between tokens -/

/-- Take white space and comments. Behind a line end a key may start, except in brackets. -/
def toNextToken : Nat → Lexing Unit
  | 0 => return ()
  | n + 1 => do
    let l ← get
    if l.cursor.column == 0 && (← scan (Scan.isAtSome isByteOrderMark)) then scan Scan.next
    -- a tab is no indentation
    let tabs := l.inFlow || !l.keyAllowed
    let _ ← scan (Scan.span fun c => c == ' ' || (tabs && c == '\t'))
    if ← scan (Scan.isAt '#') then
      let _ ← scan (Scan.span fun c => !isBreak c)
    if ← scan (Scan.isAtSome isBreak) then
      scan Scan.next
      if !l.inFlow then allowKey true
      toNextToken n

/-! ### Directives -/

/-- A number of one to nine digits. -/
def versionNumber : Scan Nat := do
  let digits ← Scan.span Char.isDigit
  if digits.isEmpty || 9 < digits.length then failure
  else return digits.foldl (fun n c => n * 10 + (c.toNat - '0'.toNat)) 0

/-- A handle of tags: an exclamation mark, a word and another exclamation mark. The second mark may
be missing. -/
def tagHandle : Scan (List Char) := do
  Scan.expect '!'
  let word ← Scan.span isWordChar
  if ← Scan.accept '!' then return '!' :: word ++ ['!'] else return '!' :: word

def isTagChar (verbatim : Bool) (c : Char) : Bool :=
  isWordChar c || ";/?:@&=+$.%!~*'()".toList.contains c || (verbatim && ",[]".toList.contains c)

/-- Every percent sign has two hexadecimal digits behind it. -/
def escapesAreWhole : List Char → Bool
  | '%' :: a :: b :: rest =>
    (Text.hexDigitValue? a).isSome && (Text.hexDigitValue? b).isSome && escapesAreWhole rest
  | c :: rest => c != '%' && escapesAreWhole rest
  | [] => true

def tagText (verbatim : Bool) (taken : List Char) : Scan String := do
  let more ← Scan.span (isTagChar verbatim)
  if (taken ++ more).isEmpty || !escapesAreWhole more then failure
  else return String.ofList (taken ++ more)

/-- A directive, which stands at the start of a line. -/
def directive : Scan Token := do
  Scan.next
  let name := String.ofList (← Scan.span isWordChar)
  if !(← Scan.isAtSome isSpaceOrTab) then failure
  let _ ← Scan.span isSpaceOrTab
  let t ←
    -- a document names its version by two numbers
    if name = "YAML" then do
      let major ← versionNumber
      Scan.expect '.'
      pure (Token.version major (← versionNumber))
    else if name = "TAG" then do
      -- a handle ends in an exclamation mark, and may be one alone
      let handle ← tagHandle
      if handle.length != 1 && handle.getLast? != some '!' then failure
      if !(← Scan.isAtSome isSpaceOrTab) then failure
      let _ ← Scan.span isSpaceOrTab
      let start ← tagText true []
      if !(← Scan.isAtBlankOrEnd) then failure
      pure (Token.handle (String.ofList handle) start)
    else failure
  Scan.restOfLine
  return t

/-! ### Properties of nodes -/

def anchorName : Scan String := do
  Scan.next
  let name ← Scan.span isWordChar
  let ended ← Scan.isAtBlankOrEnd
  let marked ← Scan.isAtSome fun c => "?:,]\x7d%@`".toList.contains c
  if name.isEmpty || !(ended || marked) then failure else return String.ofList name

/-- A tag between angle brackets stands for itself. -/
def verbatimTag : Scan Token := do
  Scan.skip 2
  let text ← tagText true []
  Scan.expect '>'
  return .tag "" text

/-- A tag with a handle in front; `!` alone is a tag of its own. -/
def shortTag : Scan Token := do
  let handle ← tagHandle
  if 1 < handle.length && handle.getLast? == some '!' then
    return .tag (String.ofList handle) (← tagText false [])
  else
    let more ← Scan.span (isTagChar false)
    if !escapesAreWhole more then failure
    let rest := handle.tail ++ more
    return if rest.isEmpty then .tag "" "!" else .tag "!" (String.ofList rest)

def tag (inFlow : Bool) : Scan Token := do
  let t ← if (← Scan.second?) == some '<' then verbatimTag else shortTag
  let comma ← Scan.isAt ','
  if (← Scan.isAtBlankOrEnd) || (inFlow && comma) then return t else failure

/-! ### Tokens -/

/-- A sign in front of a node inside a block opens the block. -/
def blockSign (start : Token) : Lexing Unit := do
  let l ← get
  if !l.inFlow then
    if !l.keyAllowed then failure
    modify (·.openBlock l.cursor.column start)

def entrySign : Lexing Unit := do
  blockSign .blockSequence
  change Layout.dropKey?
  allowKey true
  scan Scan.next
  emit .entry

def keySign : Lexing Unit := do
  blockSign .blockMapping
  change Layout.dropKey?
  allowKey !(← get).inFlow
  scan Scan.next
  emit .key

def valueSign : Lexing Unit := do
  match (← get).keys with
  | some k :: _ => modify (Layout.settleKey k)
  -- the key is left out, or it had a sign of its own
  | _ =>
    blockSign .blockMapping
    allowKey !(← get).inFlow
  scan Scan.next
  emit .value

/-- An opening bracket may start a key. -/
def openBracket (t : Token) : Lexing Unit := do
  change Layout.saveKey?
  modify fun l => { l with keys := none :: l.keys, keyAllowed := true }
  scan Scan.next
  emit t

def closeBracket (t : Token) : Lexing Unit := do
  change Layout.dropKey?
  modify fun l =>
    { l with keys := if l.inFlow then l.keys.tail else l.keys, keyAllowed := false }
  scan Scan.next
  emit t

def commaSign : Lexing Unit := do
  change Layout.dropKey?
  allowKey true
  scan Scan.next
  emit .comma

/-- A token that may start a key. -/
def nodeStart (s : Scan Token) : Lexing Unit := do
  change Layout.saveKey?
  allowKey false
  emit (← scan s)

/-- A plain scalar; if a line end was taken behind it, a key may follow. -/
def plainScalar : Lexing Unit := do
  change Layout.saveKey?
  let l ← get
  let (text, broken) ← scan (plainText l.inFlow (l.indent + 1).toNat)
  allowKey broken
  emit (.scalar true (String.ofList text))

def quotedScalar (quote : Char) : Scan Token :=
  return .scalar false (String.ofList (← quotedText quote))

def blockScalar : Lexing Unit := do
  change Layout.dropKey?
  allowKey true
  let text ← scan (blockText (← get).indent)
  emit (.scalar false (String.ofList text))

/-- A token that stands outside of all blocks. -/
def documentSign (s : Scan Token) : Lexing Unit := do
  modify (·.closeBlocks (-1))
  change Layout.dropKey?
  allowKey false
  emit (← scan s)

def isIndicator (c : Char) : Bool := "-?:,[]\x7b\x7d#&*!|>'\"%@`".toList.contains c

/-- A plain scalar starts with a character; the one behind it is given. -/
def startsPlain (inFlow : Bool) (c : Char) (behind : Option Char) : Bool :=
  (!isIndicator c && !isBlankOrBreak c) ||
    (c == '-' && !behind.any isSpaceOrTab) ||
    (!inFlow && (c == '?' || c == ':') && !(behind.map isBlankOrBreak).getD true)

/-- The three characters of a document mark. -/
def documentMark (c : Char) : Scan Token := do
  Scan.skip 3
  return if c == '-' then .documentStart else .documentEnd

def token (c : Char) : Lexing Unit := do
  let l ← get
  let behind ← scan Scan.second?
  let blankBehind := (behind.map isBlankOrBreak).getD true
  -- directives and marks of documents stand at the start of a line only
  if l.cursor.column == 0 && c == '%' then documentSign directive
  else if l.cursor.atDocumentMark then documentSign (documentMark c)
  else if c == '[' then openBracket .flowSequence
  else if c == '{' then openBracket .flowMapping
  else if c == ']' then closeBracket .flowSequenceEnd
  else if c == '}' then closeBracket .flowMappingEnd
  else if c == ',' then commaSign
  -- these signs stand alone; inside of flow collections only that of an entry must
  else if c == '-' && blankBehind then entrySign
  else if c == '?' && (l.inFlow || blankBehind) then keySign
  else if c == ':' && (l.inFlow || blankBehind) then valueSign
  -- the properties and the content of a node
  else if c == '*' then nodeStart (return .reference (← anchorName))
  else if c == '&' then nodeStart (return .anchor (← anchorName))
  else if c == '!' then nodeStart (tag l.inFlow)
  else if (c == '|' || c == '>') && !l.inFlow then blockScalar
  else if c == '\'' || c == '"' then nodeStart (quotedScalar c)
  else if startsPlain l.inFlow c behind then plainScalar
  else failure

/-- Read all tokens up to the end of the text; each takes at least one character. -/
def allTokens : Nat → Lexing Unit
  | 0 => failure
  | n + 1 => do
    toNextToken ((← get).cursor.rest.length + 1)
    change Layout.dropStaleKeys?
    match ← scan Scan.head? with
    | none =>
      modify (·.closeBlocks (-1))
      change Layout.dropKey?
    | some c =>
      modify fun l => l.closeBlocks l.cursor.column
      token c
      allTokens n

end Lexing

def tokens? (text : String) : Option (List Token) := do
  let cursor ← Cursor.ofText? text
  let (_, l) ← (Lexing.allTokens (cursor.rest.length + 1)).run { cursor }
  return l.tokens

end EndpointDocs.Yaml
