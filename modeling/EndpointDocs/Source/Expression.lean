import EndpointDocs.Source.Pattern

/-!
# Expressions and blocks in source text

No shape depends on an expression; they are read so that what surrounds them can be. What an
expression is made of decides what may follow it: a statement that ends with a block needs no
semicolon, a range takes no further operator, and comparisons do not chain.
-/

namespace EndpointDocs.Source.Expression

/-! ### Operators

Operators are read by their strength: an operand takes what binds more tightly to its right, and the
loop goes on with what binds as tightly as the strength it began with. -/

/-- The binary operators, longer ones in front of the ones that they start with. -/
def operatorTable : List (String × Strength) :=
  [("+=", .assignment), ("-=", .assignment), ("*=", .assignment), ("/=", .assignment),
    ("%=", .assignment), ("^=", .assignment), ("&=", .assignment), ("|=", .assignment),
    ("<<=", .assignment), (">>=", .assignment), ("&&", .conjunction), ("||", .disjunction),
    ("<<", .shift), (">>", .shift), ("==", .comparison), ("<=", .comparison),
    ("!=", .comparison), (">=", .comparison), ("+", .sum), ("-", .sum), ("*", .product),
    ("/", .product), ("%", .product), ("^", .bitXor), ("&", .bitAnd), ("|", .bitOr),
    ("<", .comparison), (">", .comparison)]

/-- The binary operator in front: its length and strength. -/
def operator? (ts : List Token) : Option (Nat × Strength) :=
  (operatorTable.find? fun p => atMark p.1 ts).map fun p => (p.1.length, p.2)

/-- An assignment, and not the arrow of an arm. -/
def atAssignment (ts : List Token) : Bool := atMark "=" ts && !atMark "=>" ts

/-- The strength of whatever operator is in front; zero if there is none. -/
def strengthAhead (ts : List Token) : Nat :=
  match operator? ts with
  | some (_, s) => s.rank
  | none =>
    if atAssignment ts then Strength.assignment.rank
    else if atMark ".." ts then Strength.range.rank
    else if atWord "as" ts then Strength.cast.rank
    else 0

/-- Let stronger operators take the right operand first; `n` bounds the number of them. -/
def strengthen (g : Grammar) (structs : Bool) (strength : Nat) :
    Nat → ExprForm → Reader ExprForm
  | 0, form => pure form
  | n + 1, form => do
    let ts ← get
    let next := strengthAhead ts
    if next > strength || (next = strength && strength = Strength.assignment.rank) then
      -- operators of one strength are taken from the left, only assignments from the right
      let form ← g (.operators structs form next)
      if (← get).length = ts.length then return form else strengthen g structs strength n form
    else return form

/-- The operand behind an operator, with all stronger operators that follow it. -/
def rightOperand (g : Grammar) (structs : Bool) (strength : Nat) : Reader Unit := do
  let form ← g (.operand structs)
  let _ ← strengthen g structs strength ((← get).length + 1) form

/-- Where the upper end of a range is left out. -/
def atRangeEnd (structs : Bool) (ts : List Token) : Bool :=
  ts.isEmpty || atMark "," ts || atMark ";" ts || (atMark "." ts && !atMark ".." ts) ||
    atMark "?" ts || atMark "=>" ts || (!structs && atGroup .braces ts) || atMark "=" ts ||
    atMark "+" ts || atMark "/" ts || atMark "%" ts || atMark "^" ts || atMark ">" ts ||
    atMark "<=" ts || atMark "!=" ts || atMark "-=" ts || atMark "*=" ts || atMark "&=" ts ||
    atMark "|=" ts || atMark "<<=" ts || atWord "as" ts

/-- The dots of a range and its upper end; a closed range has one. -/
def rangeRest (g : Grammar) (structs : Bool) : Reader Unit := do
  if ← mark? "..=" then rightOperand g structs Strength.range.rank
  else if ← mark? "..." then rightOperand g structs Strength.range.rank
  else
    mark ".."
    if ← ahead (atRangeEnd structs) then pure ()
    else rightOperand g structs Strength.range.rank

/-- What may not follow a cast. -/
def atAfterCast (ts : List Token) : Bool :=
  (atMark "." ts && !atMark ".." ts) || atMark "?" ts || atGroup .brackets ts || atGroup .parens ts

/-- One operator behind an expression, and all that follow it. -/
def operators (g : Grammar) (structs : Bool) (left : ExprForm) (base : Nat) : Reader ExprForm := do
  if left = .range then return left
  let ts ← get
  match operator? ts with
  | some (length, strength) =>
    if strength.rank < base then return left
    -- comparisons do not associate
    if strength = .comparison && left = .comparison then failure
    skip length
    rightOperand g structs strength.rank
    g (.operators structs (if strength = .comparison then .comparison else .other) base)
  | none =>
    if base ≤ Strength.assignment.rank && atAssignment ts then
      skip 1
      rightOperand g structs Strength.assignment.rank
      g (.operators structs .other base)
    else if base ≤ Strength.range.rank && atMark ".." ts then
      rangeRest g structs
      return .range
    else if base ≤ Strength.cast.rank && atWord "as" ts then
      skip 1
      let _ ← g (.type false)
      expect (fun ts => !atAfterCast ts)
      g (.operators structs .other base)
    else return left

/-! ### Operands

What an operand may be depends on where it stands: in front of a block, a brace opens the block and
no structure literal. The parameter `structs` says whether such a literal may be read. -/

/-- Expressions in parentheses or brackets. -/
def list (g : Grammar) (d : Delimiter) : Reader Unit := do
  let _ ← group d (commas (g (.expression true)))

/-- The member behind a point: a name, or a number for a part of a tuple. -/
def member (g : Grammar) : Reader Unit := do
  match ← get with
  | .literal (.number _) :: rest => set rest
  | _ =>
    if ← word? "await" then pure ()
    else
      let _ ← identifier
      if ← ahead (atMark "::") then
        let _ ← TypeSyntax.angleArguments g
        list g .parens
      else if ← ahead (atGroup .parens) then list g .parens

/-- Calls, members, indices and question marks behind an operand. -/
def trailers (g : Grammar) (form : ExprForm) : Reader ExprForm := do
  let found ← repeated do
    let ts ← get
    if atGroup .parens ts then list g .parens; return some ()
    else if atMark "." ts && !atMark ".." ts && form ≠ .range then
      skip 1; member g; return some ()
    else if atGroup .brackets ts then
      let _ ← group .brackets (g (.expression true))
      return some ()
    else if atMark "?" ts && form ≠ .range then skip 1; return some ()
    else return none
  return if found.isEmpty then form else .other

/-- A field of a structure literal, or the rest of it behind two dots. -/
def structField (g : Grammar) : Reader Unit := do
  let _ ← Attribute.outer g
  if ← mark? ".." then
    if ← ahead atEnd then pure ()
    else
      let _ ← g (.expression true)
      expect atEnd
  else
    match ← get with
    | .literal (.number _) :: rest =>
      set rest
      mark ":"
      let _ ← g (.expression true)
    | _ =>
      let _ ← identifier
      if ← mark? ":" then let _ ← g (.expression true)

/-- A path, a macro call or a structure literal. -/
def fromPath (g : Grammar) (structs : Bool) : Reader ExprForm := do
  let p ← TypeSyntax.qualifiedPath g true
  let ts ← get
  if !p.qualified && atMark "!" ts && !atMark "!=" ts && p.plain then
    skip 1
    return if (← anyGroup) = .braces then .macroBlock else .other
  else if structs && atGroup .braces ts then
    let _ ← group .braces (commas (structField g))
    return .other
  else return .other

/-- A pattern, perhaps with its type. -/
def closureParam (g : Grammar) : Reader Unit := do
  let _ ← Attribute.outer g
  g .pattern
  if ← mark? ":" then let _ ← g (.type true)

/-- A closure with a declared result has a block for its body. -/
def closure (g : Grammar) (structs : Bool) : Reader Unit := do
  let _ ← TypeSyntax.forLifetimes? g
  let _ ← word? "const"
  let _ ← word? "static"
  let _ ← word? "async"
  let _ ← word? "move"
  mark "|"
  let _ ← separatedUntil "," (atMark "|") (closureParam g)
  mark "|"
  if ← mark? "->" then
    let _ ← g (.type true)
    g .block
  else let _ ← g (.expression structs)

/-- A closure is in front, with the words that may stand before its parameters. -/
def atClosure (ts : List Token) : Bool :=
  let next := ts.drop 1
  atMark "|" ts || atWord "move" ts ||
    (atWord "for" ts && atMark "<" next && (atLifetime (ts.drop 2) || atMark ">" (ts.drop 2))) ||
    (atWord "const" ts && !atGroup .braces next) || atWord "static" ts ||
    (atWord "async" ts && (atMark "|" next || atWord "move" next))

/-- Something is in front that an expression can start with. -/
def atExpression (ts : List Token) : Bool :=
  (atAnyWord ts && !atWord "as" ts) || atGroup .parens ts || atGroup .brackets ts ||
    atGroup .braces ts || atLiteral ts || (atMark "!" ts && !atMark "!=" ts) ||
    (atMark "-" ts && !atMark "-=" ts && !atMark "->" ts) || (atMark "*" ts && !atMark "*=" ts) ||
    (atMark "|" ts && !atMark "|=" ts) || (atMark "&" ts && !atMark "&=" ts) || atMark ".." ts ||
    (atMark "<" ts && !atMark "<=" ts && !atMark "<<=" ts) || atMark "::" ts || atLifetime ts ||
    atMark "#" ts

/-- The value behind `break` or `return`, if there is one. -/
def optionalValue (g : Grammar) (structs : Bool) : Reader Unit := do
  let ts ← get
  if atExpression ts && (structs || !atGroup .braces ts) then let _ ← g (.expression structs)

/-- The arms of a match. -/
def arms (g : Grammar) : Reader Unit := do
  let _ ← Attribute.inner g
  let arm : Reader (Option Unit) := do
    if ← ahead atEnd then return none
    let _ ← Attribute.outer g
    Pattern.alternatives g
    if ← word? "if" then let _ ← g (.expression true)
    mark "=>"
    let form ← g .statementExpression
    let separated ← mark? ","
    -- only the last arm, and one that ends with a block, need no comma
    if !separated && form ≠ .block && !(← get).isEmpty then failure
    return some ()
  let _ ← repeated arm

/-- A conditional with what follows its block. -/
def conditional (g : Grammar) : Reader Unit := do
  word "if"
  let _ ← g (.expression false)
  g .block
  if ← word? "else" then
    if ← ahead (atWord "if") then let _ ← g (.operand true)
    else g .block

/-- A loop or block, perhaps behind a label. -/
def looping (g : Grammar) : Reader Unit := do
  if ← word? "while" then
    let _ ← g (.expression false)
    g .block
  else if ← word? "for" then
    Pattern.alternatives g
    word "in"
    let _ ← g (.expression false)
    g .block
  else if ← word? "loop" then g .block
  else g .block

/-- What is inside parentheses: nothing, one expression, or the parts of a tuple. -/
def tupleParts (g : Grammar) : Reader Unit := do
  let _ ← commas (g (.expression true))

/-- What is inside brackets: items, or one item and their number. -/
def arrayParts (g : Grammar) : Reader Unit := do
  if ← ahead atEnd then pure ()
  else
    let _ ← g (.expression true)
    if ← mark? ";" then let _ ← g (.expression true)
    else if ← mark? "," then let _ ← commas (g (.expression true))

/-- An operand without operators, by what it starts with. The order of the tests matters where one
word starts several of them. -/
def atom (g : Grammar) (structs : Bool) : Reader ExprForm := do
  let ts ← get
  let next := ts.drop 1
  if atLiteral ts then anyLiteral; return .other
  -- the braces tell a block from a closure or a path with the same first word
  else if atWord "async" ts &&
      (atGroup .braces next || (atWord "move" next && atGroup .braces (ts.drop 2))) then
    skip 1
    let _ ← word? "move"
    g .block
    return .other
  -- a block ends like a statement, and its form says so
  else if atWord "try" ts && atGroup .braces next then skip 1; g .block; return .block
  else if atClosure ts then closure g structs; return .other
  else if atPathWord ts || atMark "::" ts || atMark "<" ts ||
      (atWord "try" ts && (atMark "!" next || atMark "::" next)) then fromPath g structs
  else if atGroup .parens ts then group .parens (tupleParts g); return .other
  -- the words that take an optional label or value
  else if atWord "break" ts then
    skip 1
    let _ ← attempt? lifetime
    optionalValue g structs
    return .other
  else if atWord "continue" ts then skip 1; let _ ← attempt? lifetime; return .other
  else if atWords ["return", "yield"] ts then skip 1; optionalValue g true; return .other
  else if atGroup .brackets ts then group .brackets (arrayParts g); return .other
  else if atWord "let" ts then
    skip 1
    Pattern.alternatives g
    mark "="
    let left ← g (.operand structs)
    -- `&&` and `||` are left to what the `let` stands in, for they join conditions
    let _ ← g (.operators structs left Strength.comparison.rank)
    return .other
  else if atWord "if" ts then conditional g; return .block
  else if atWords ["while", "for", "loop"] ts then looping g; return .block
  else if atWord "match" ts then
    skip 1
    let _ ← g (.expression false)
    group .braces (arms g)
    return .block
  else if atWords ["unsafe", "const"] ts && atGroup .braces next then
    skip 1
    g .block
    return .block
  else if atGroup .braces ts then g .block; return .block
  else if atMark ".." ts then rangeRest g structs; return .range
  else if atWord "_" ts then skip 1; return .other
  else if atLifetime ts && atMark ":" next then skip 2; looping g; return .block
  else failure

/-- An operand: prefix operators, an atom, and what follows it. -/
def operand (g : Grammar) (structs : Bool) : Reader ExprForm := do
  let _ ← Attribute.outer g
  let ts ← get
  if atMark "&" ts then
    skip 1
    let next ← get
    if atWord "raw" next && atWords ["mut", "const"] (next.drop 1) then skip 2
    else let _ ← word? "mut"
    let _ ← g (.operand structs)
    return .other
  else if atMark "*" ts || atMark "!" ts || (atMark "-" ts && !atLiteral ts) then
    skip 1
    let _ ← g (.operand structs)
    return .other
  else trailers g (← atom g structs)

/-- An expression: an operand, and whatever operators follow. -/
def read (g : Grammar) (structs : Bool) : Reader ExprForm := do
  g (.operators structs (← g (.operand structs)) 0)

/-- Words that an expression with a block of its own starts with. -/
def atBlockLike (ts : List Token) : Bool :=
  atWords ["if", "while", "loop", "match"] ts || (atWord "for" ts && !atMark "<" (ts.drop 1)) ||
    (atWords ["unsafe", "const", "try"] ts && atGroup .braces (ts.drop 1)) || atGroup .braces ts ||
    (atLifetime ts && atMark ":" (ts.drop 1))

/-- An expression at the start of a statement or behind the arrow of an arm: one with a block of its
own ends with it, unless a point or question mark follows. -/
def statementExpression (g : Grammar) : Reader ExprForm := do
  let _ ← Attribute.outer g
  if ← ahead atBlockLike then
    let _ ← atom g true
    let ts ← get
    if (atMark "." ts && !atMark ".." ts) || atMark "?" ts then
      g (.operators true (← trailers g .other) 0)
    else return .block
  else read g true

/-! ### Blocks

A block is a list of statements. A statement is told apart from an expression by what it starts
with, and macro calls in braces are statements by themselves. -/

/-- A binding of a pattern to a value, with a block for the case that it does not match. -/
def binding (g : Grammar) : Reader Unit := do
  word "let"
  g .pattern
  if ← mark? ":" then let _ ← g (.type true)
  if ← mark? "=" then
    let _ ← g (.expression true)
    if ← word? "else" then g .block
  mark ";"

/-- An item is in front, and no expression that starts with the same word. -/
def atItem (ts : List Token) : Bool :=
  let second := ts.drop 1
  let third := ts.drop 2
  atWords ["pub", "extern", "use", "fn", "mod", "type", "struct", "enum", "trait", "impl",
      "macro"] ts ||
    (atWord "crate" ts && !atMark "::" second) ||
    (atWord "static" ts && (atWord "mut" second || (atIdentifier second &&
      !(atWord "async" second && (atWord "move" third || atMark "|" third))))) ||
    (atWord "const" ts && !(atGroup .braces second || atWord "static" second ||
      (atWord "async" second && !atWords ["unsafe", "extern", "fn"] third) ||
      atWord "move" second || atMark "|" second)) ||
    (atWord "unsafe" ts && !atGroup .braces second) ||
    (atWord "async" ts && atWords ["unsafe", "extern", "fn"] second) ||
    (atWord "union" ts && atIdentifier second) || (atWord "auto" ts && atWord "trait" second) ||
    (atWord "default" ts && atWords ["unsafe", "impl"] second)

/-- Where the path of a macro call in front ends, if there is one. -/
def macroCall? (ts : List Token) : Option (List Token) :=
  match plainPath ts with
  | some (_, rest) => if atMark "!" rest then some (rest.drop 1) else none
  | none => none

/-- One statement; whether a semicolon has to separate it from the next one. -/
def statement (g : Grammar) : Reader Bool := do
  let _ ← Attribute.outer g
  let ts ← get
  let macroRest := macroCall? ts
  let definesMacro := macroRest.any fun rest => atIdentifier rest || atWord "try" rest
  let callsWithBraces := macroRest.any fun rest =>
    let behind := rest.drop 1
    atGroup .braces rest && !((atMark "." behind && !atMark ".." behind) || atMark "?" behind)
  if callsWithBraces && !definesMacro then
    let _ ← plainPath
    skip 2
    let _ ← mark? ";"
    return false
  else if atWord "let" ts then binding g; return false
  else if atItem ts || definesMacro then let _ ← g .item; return false
  else
    let form ← g .statementExpression
    if ← mark? ";" then return false
    else return form ≠ .block && form ≠ .macroBlock

/-- Statements to the end, with any number of semicolons between them. -/
def statements (g : Grammar) : Reader Unit := do
  let _ ← Attribute.inner g
  let one : Reader (Option Unit) := do
    let _ ← manyWhile (atMark ";") (skip 1)
    if ← ahead atEnd then return none
    let needsSemicolon ← statement g
    if needsSemicolon then expect atEnd
    return some ()
  let _ ← repeated one

/-- Statements in braces. -/
def block (g : Grammar) : Reader Unit := group .braces (statements g)

end EndpointDocs.Source.Expression
