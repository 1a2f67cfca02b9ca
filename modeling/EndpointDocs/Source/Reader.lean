import EndpointDocs.Source.Token
import EndpointDocs.TypeExpr

/-!
# Reading tokens

A `Reader` takes tokens from the front of a list, or fails. This module holds what all of the
grammar shares: looking ahead, taking one token, and lists inside groups. A group is read by a
reader of its own that has to take every token of its body.

The grammar is recursive: types hold expressions, which hold blocks, which hold items. `Rule` lists
the parts that are read from inside others, and a `Grammar` reads each of them; the modules of
types, patterns, expressions and items say how a part is read with a grammar for the parts inside.
-/

namespace EndpointDocs.Source

/-- Takes tokens from the front of a list, or fails. -/
abbrev Reader (α : Type) := StateT (List Token) Option α

/-! ### Looking ahead -/

/-- The words that are no identifiers. -/
def keywords : List String :=
  ["abstract", "as", "async", "await", "become", "box", "break", "const", "continue", "crate",
    "do", "dyn", "else", "enum", "extern", "false", "final", "fn", "for", "if", "impl", "in",
    "let", "loop", "macro", "match", "mod", "move", "mut", "override", "priv", "pub", "ref",
    "return", "Self", "self", "static", "struct", "super", "trait", "true", "try", "type",
    "typeof", "unsafe", "unsized", "use", "virtual", "where", "while", "yield", "_"]

/-- An identifier that is no keyword is in front. -/
def atIdentifier : List Token → Bool
  | .word w :: _ => !keywords.contains w.text
  | _ => false

/-- Any word is in front, be it a keyword. -/
def atAnyWord : List Token → Bool
  | .word _ :: _ => true
  | _ => false

def atWord (w : String) : List Token → Bool
  | .word v :: _ => v.text == w
  | _ => false

def atWords (ws : List String) (ts : List Token) : Bool := ws.any (atWord · ts)

/-- The given punctuation is in front; all of its characters but the last one are joint. -/
def atMarks : List Char → List Token → Bool
  | [], _ => true
  | [c], .mark d _ :: _ => c == d
  | c :: cs, .mark d true :: ts => c == d && atMarks cs ts
  | _, _ => false

def atMark (s : String) (ts : List Token) : Bool := atMarks s.toList ts

def atGroup (d : Delimiter) : List Token → Bool
  | .group e _ :: _ => e = d
  | _ => false

def atLifetime : List Token → Bool
  | .lifetime _ :: _ => true
  | _ => false

/-- A literal is in front: a token, a truth value, or a number behind a minus sign. -/
def atLiteral : List Token → Bool
  | .literal _ :: _ => true
  | .word w :: _ => w.text == "true" || w.text == "false"
  | .mark '-' _ :: .literal (.number _) :: _ => true
  | _ => false

/-- A word that a path may start with is in front. -/
def atPathWord (ts : List Token) : Bool :=
  atIdentifier ts || atWords ["super", "self", "Self", "crate"] ts

/-! ### Taking tokens -/

/-- Look at the tokens without taking any. -/
def ahead (p : List Token → Bool) : Reader Bool := return p (← get)

/-- Fail unless the tokens are as expected. -/
def expect (p : List Token → Bool) : Reader Unit := do
  if p (← get) then pure () else failure

/-- Take `n` tokens. -/
def skip (n : Nat) : Reader Unit := modify (·.drop n)

def word (w : String) : Reader Unit := do expect (atWord w); skip 1

def word? (w : String) : Reader Bool := do
  if atWord w (← get) then skip 1; return true else return false

def mark (s : String) : Reader Unit := do expect (atMark s); skip s.length

def mark? (s : String) : Reader Bool := do
  if atMark s (← get) then skip s.length; return true else return false

def anyWord : Reader String := do
  match ← get with
  | .word w :: rest => set rest; return w.text
  | _ => failure

def identifier : Reader String := do expect atIdentifier; anyWord

def lifetime : Reader Unit := do expect atLifetime; skip 1

def anyLiteral : Reader Unit := do
  match ← get with
  | .mark '-' _ :: .literal (.number _) :: rest => set rest
  | ts => if atLiteral ts then skip 1 else failure

def textLiteral : Reader String := do
  match ← get with
  | .literal (.text s) :: rest => set rest; return s
  | _ => failure

/-- Take a group of the given kind and return its body. -/
def groupBody (d : Delimiter) : Reader (List Token) := do
  match ← get with
  | .group e body :: rest => if e = d then set rest; return body else failure
  | _ => failure

def anyGroup : Reader Delimiter := do
  match ← get with
  | .group d _ :: rest => set rest; return d
  | _ => failure

/-- The value that a reader makes of all of the tokens. -/
def readAll? {α : Type} (r : Reader α) (ts : List Token) : Option α :=
  match r ts with
  | some (a, []) => some a
  | _ => none

/-- Take a group whose whole body is read by `r`. -/
def group {α : Type} (d : Delimiter) (r : Reader α) : Reader α := do
  match readAll? r (← groupBody d) with
  | some a => return a
  | none => failure

/-- What `r` reads, if it does; nothing is taken if it fails. -/
def attempt? {α : Type} (r : Reader α) : Reader (Option α) := fun ts =>
  match r ts with
  | some (a, rest) => some (some a, rest)
  | none => some (none, ts)

/-! ### Lists -/

/-- Repeat `step` until it returns nothing; `n` bounds the number of rounds. -/
def repeatUpTo {α : Type} (step : Reader (Option α)) : Nat → Reader (List α)
  | 0 => pure []
  | n + 1 => do
    match ← step with
    | none => return []
    | some a => return a :: (← repeatUpTo step n)

/-- Repeat `step` until it returns nothing. Each round but the last one takes a token. -/
def repeated {α : Type} (step : Reader (Option α)) : Reader (List α) := do
  repeatUpTo step ((← get).length + 1)

/-- Read items while the tokens ahead satisfy `p`. -/
def manyWhile {α : Type} (p : List Token → Bool) (r : Reader α) : Reader (List α) :=
  repeated do if p (← get) then return some (← r) else return none

def atEnd (ts : List Token) : Bool := ts.isEmpty

/-- Items with separators between them and perhaps one at the end, until `stop`. -/
def separatedUntil {α : Type} (separator : String) (stop : List Token → Bool) (r : Reader α) :
    Reader (List α) := do
  let more : Reader (Option α) := do
    if stop (← get) then return none
    let a ← r
    if !stop (← get) then mark separator
    return some a
  repeated more

def commas {α : Type} (r : Reader α) : Reader (List α) := separatedUntil "," atEnd r

/-! ### The recursive parts of the grammar -/

/-- What the form of a type allows to follow it. -/
inductive TypeForm where
  /-- One name, perhaps with arguments in angle brackets. -/
  | name
  /-- Any other path without a type in front. -/
  | path
  /-- A single bound without a keyword in front. -/
  | bound
  | other
deriving DecidableEq

/-- A type as it was read. -/
structure ReadType where
  meaning : TypeExpr
  form : TypeForm

/-- What the form of an expression allows to follow it. -/
inductive ExprForm where
  /-- Ends with a block, so that it needs no semicolon as a statement. -/
  | block
  /-- A macro call with braces. -/
  | macroBlock
  | range
  | comparison
  | other
deriving DecidableEq

/-- Binding strength of operators, weakest first. -/
inductive Strength where
  | assignment | range | disjunction | conjunction | comparison | bitOr | bitXor | bitAnd | shift
  | sum | product | cast
deriving DecidableEq

/-- The place in the order of strengths. -/
def Strength.rank : Strength → Nat
  | assignment => 1
  | range => 2
  | disjunction => 3
  | conjunction => 4
  | comparison => 5
  | bitOr => 6
  | bitXor => 7
  | bitAnd => 8
  | shift => 9
  | sum => 10
  | product => 11
  | cast => 12

/-- An attribute: the path of its name, and its arguments if it has a list of them, or the text
that it is set to. -/
structure Attribute where
  path : List String
  arguments : Option (List Token)
  value : Option String

/-- How the written name of a field or variant is set. -/
structure Naming where
  renamed : Option String := none
  skipped : Bool := false
deriving Repr, DecidableEq

structure Field where
  name : Option String
  type : TypeExpr
  naming : Naming
  description : Option String
deriving DecidableEq

inductive Fields where
  | named (fields : List Field)
  | unnamed (fields : List Field)
  | unit
deriving DecidableEq

/-- A variant of an enumeration; nothing is kept of what it holds. -/
structure EnumVariant where
  name : String
  naming : Naming

/-- What a source declares; only what has a shape is told apart. -/
inductive Item where
  | struct (name : String) (typeParams : List String) (fields : Fields)
  | enum (name : String) (variants : List EnumVariant)
  | module (items : List Item)
  | other

/-- The parts that are read from inside others. -/
inductive Rule where
  /-- A type; a sum of bounds is one only where `sums` allows it. -/
  | type (sums : Bool)
  | bound
  /-- An expression; a structure literal is one only where `structs` allows it. -/
  | expression (structs : Bool)
  /-- An expression without operators between its operands. -/
  | operand (structs : Bool)
  /-- The operators and operands behind one of the given form, down to the given strength. -/
  | operators (structs : Bool) (left : ExprForm) (base : Nat)
  | statementExpression
  | pattern
  | block
  | item
  | useTree

/-- What reading a part returns. -/
abbrev Rule.Result : Rule → Type
  | .type _ => ReadType
  | .expression _ | .operand _ | .operators .. | .statementExpression => ExprForm
  | .bound => Bool
  | .pattern | .block | .useTree => Unit
  | .item => Item

/-- A reader for each of the recursive parts. -/
abbrev Grammar := (r : Rule) → Reader r.Result

end EndpointDocs.Source
