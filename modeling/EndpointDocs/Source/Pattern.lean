import EndpointDocs.Source.TypeSyntax

/-!
# Patterns in source text

No shape depends on a pattern; they are read so that what surrounds them can be.
-/

namespace EndpointDocs.Source.Pattern

/-- What separates alternatives: a bar that does not start a longer mark. -/
def atBar (ts : List Token) : Bool := atMark "|" ts && !atMark "||" ts && !atMark "|=" ts

/-- Alternatives with bars between them and perhaps one in front. -/
def alternatives (g : Grammar) : Reader Unit := do
  let _ ← mark? "|"
  g .pattern
  let _ ← repeated do
    if atBar (← get) then skip 1; return some (← g .pattern) else return none

/-- Where the end of a range is left out. -/
def atNoBound (ts : List Token) : Bool :=
  ts.isEmpty || atMark "|" ts || atMark "=" ts || (atMark ":" ts && !atMark "::" ts) ||
    atMark "," ts || atMark ";" ts || atWord "if" ts

def rangeBound (g : Grammar) : Reader Unit := do
  let ts ← get
  if atLiteral ts then anyLiteral
  else if atWord "const" ts then skip 1; g .block
  else let _ ← TypeSyntax.qualifiedPath g true

/-- The dots of a range and its upper end. A closed range has one. -/
def rangeRest (g : Grammar) : Reader Unit := do
  if ← mark? "..=" then rangeBound g
  else if ← mark? "..." then rangeBound g
  else
    mark ".."
    if ← ahead atNoBound then pure () else rangeBound g

def field (g : Grammar) : Reader Unit := do
  let _ ← Attribute.outer g
  if ← mark? ".." then expect atEnd
  else
    let boxed ← word? "box"
    let byRef ← word? "ref"
    let isMut ← word? "mut"
    match ← get with
    | .literal (.number _) :: rest =>
      set rest
      mark ":"
      alternatives g
    | _ =>
      let _ ← identifier
      if !boxed && !byRef && !isMut then
        if ← mark? ":" then alternatives g

def fromPath (g : Grammar) : Reader Unit := do
  let p ← TypeSyntax.qualifiedPath g true
  let ts ← get
  if !p.qualified && atMark "!" ts && !atMark "!=" ts && p.plain then
    skip 1
    let _ ← anyGroup
  else if atGroup .braces ts then let _ ← group .braces (commas (field g))
  else if atGroup .parens ts then let _ ← group .parens (commas (alternatives g))
  else if atMark ".." ts then rangeRest g

/-- A name that is bound, and what it has to match besides. -/
def binding (g : Grammar) : Reader Unit := do
  let _ ← word? "ref"
  let _ ← word? "mut"
  if ← word? "self" then pure () else let _ ← identifier
  if ← mark? "@" then g .pattern

def atPath (ts : List Token) : Bool :=
  let next := ts.drop 1
  (atIdentifier ts && (atMark "::" next || atMark "!" next || atGroup .braces next ||
      atGroup .parens next || atMark ".." next)) ||
    (atWord "self" ts && atMark "::" next) || atMark "::" ts || atMark "<" ts ||
    atWords ["Self", "super", "crate"] ts

def read (g : Grammar) : Reader Unit := do
  let ts ← get
  if atPath ts then fromPath g
  else if atWord "_" ts then skip 1
  else if atWord "box" ts then skip 1; g .pattern
  else if atLiteral ts || atWord "const" ts then
    rangeBound g
    if ← ahead (atMark "..") then rangeRest g
  else if atWords ["ref", "mut", "self"] ts || atIdentifier ts then binding g
  else if atMark "&" ts then skip 1; let _ ← word? "mut"; g .pattern
  else if atGroup .parens ts then let _ ← group .parens (commas (alternatives g))
  else if atGroup .brackets ts then let _ ← group .brackets (commas (alternatives g))
  else if atMark ".." ts then rangeRest g
  else failure

end EndpointDocs.Source.Pattern
