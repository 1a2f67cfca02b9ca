import EndpointDocs.Source.Attribute

/-!
# Types in source text

A path stands for its last name with the types among its arguments in angle brackets; references,
parentheses and groups stand for what is inside them, and slices and arrays for a list. Every other
type (tuples, pointers, functions, sums of bounds, macro calls, …) stands for free-form values.

A trait whose arguments stand in parentheses is a bound. It is a type behind `dyn` or `impl` only:
`Fn(A) -> B` is no type.
-/

namespace EndpointDocs.Source

/-- One segment of a path: a name, perhaps with arguments in angle brackets. -/
structure Segment where
  /-- The name with the types among its arguments. -/
  meaning : TypeExpr
  /-- Angle brackets stand behind the name. -/
  bracketed : Bool := false
  /-- There are arguments between the brackets. -/
  filled : Bool := false

structure ReadPath where
  /-- The last name with its arguments. -/
  last : TypeExpr
  /-- One segment, and nothing in front of it. -/
  single : Bool
  /-- No segment has arguments, and no type stands in front. -/
  plain : Bool
  /-- The last segment has no arguments, so that some may follow in parentheses. -/
  lastBare : Bool
  /-- A type in angle brackets stands in front. -/
  qualified : Bool

namespace TypeSyntax

def lifetimeParam (g : Grammar) : Reader Unit := do
  let _ ← Attribute.outer g
  lifetime
  if ← mark? ":" then
    let _ ← separatedUntil "+" (fun ts => atMark "," ts || atMark ">" ts) lifetime

/-- A binder of lifetimes, if there is one. -/
def forLifetimes? (g : Grammar) : Reader Bool := do
  if ← word? "for" then
    mark "<"
    let _ ← separatedUntil "," (atMark ">") (lifetimeParam g)
    mark ">"
    return true
  else return false

def returned (g : Grammar) (sums : Bool) : Reader Unit := do
  if ← mark? "->" then let _ ← g (.type sums)

def constant (g : Grammar) : Reader Unit := do
  if ← ahead atLiteral then anyLiteral else g .block

/-- One argument in angle brackets; only types count. -/
def argument (g : Grammar) : Reader (Option TypeExpr) := do
  let ts ← get
  if atLifetime ts && !atMark "+" (ts.drop 1) then skip 1; return none
  if atLiteral ts || atGroup .braces ts then constant g; return none
  let t ← g (.type true)
  -- a name may turn out to be that of an associated type, which is bound or bounded here
  if t.form = .name then
    if ← mark? "=" then
      if ← ahead (fun ts => atLiteral ts || atGroup .braces ts) then constant g
      else let _ ← g (.type true)
      return none
    if ← mark? ":" then
      let _ ← separatedUntil "+" (fun ts => atMark "," ts || atMark ">" ts) (g .bound)
      return none
  return some t.meaning

/-- All arguments; what counts is the types among them. -/
def angleArguments (g : Grammar) : Reader (List (Option TypeExpr)) := do
  let _ ← mark? "::"
  mark "<"
  let args ← separatedUntil "," (atMark ">") (argument g)
  mark ">"
  return args

/-- In an expression arguments need two colons in front. -/
def segment (g : Grammar) (inExpression : Bool) : Reader Segment := do
  if ← ahead (atWords ["super", "self", "crate", "try"]) then
    return { meaning := ⟨← anyWord, []⟩ }
  let name ← if ← ahead (atWord "Self") then anyWord else identifier
  let ts ← get
  if (!inExpression && atMark "<" ts && !atMark "<=" ts && !atMark "<<=" ts) ||
      (atMark "::" ts && atMark "<" (ts.drop 2)) then
    let args ← angleArguments g
    return ⟨⟨name, args.filterMap id⟩, true, !args.isEmpty⟩
  else return { meaning := ⟨name, []⟩ }

/-- The segments that a path goes on with. -/
def moreSegments (g : Grammar) (inExpression : Bool) : Reader (List Segment) :=
  repeated do
    let ts ← get
    if atMark "::" ts && !atGroup .parens (ts.drop 2) then
      skip 2
      return some (← segment g inExpression)
    else return none

def path (g : Grammar) (inExpression : Bool) : Reader ReadPath := do
  let leading ← mark? "::"
  let first ← segment g inExpression
  let rest ← moreSegments g inExpression
  let last := rest.getLast?.getD first
  return {
    last := last.meaning
    single := !leading && rest.isEmpty
    plain := !first.bracketed && rest.all (fun s => !s.bracketed)
    lastBare := !last.filled
    qualified := false }

/-- Arguments in parentheses are in front. -/
def atCall (ts : List Token) : Bool :=
  atGroup .parens ts || (atMark "::" ts && atGroup .parens (ts.drop 2))

def callArguments (g : Grammar) : Reader Unit := do
  let _ ← mark? "::"
  let _ ← group .parens (commas (g (.type true)))
  returned g false

def traitBound (g : Grammar) : Reader Unit := do
  let binder ← forLifetimes? g
  if ← mark? "~" then word "const" else let _ ← word? "const"
  let maybe ← mark? "?"
  if maybe && !binder then let _ ← forLifetimes? g
  let p ← path g false
  let ts ← get
  if p.lastBare && atCall ts then callArguments g

/-- A bound of a type; whether it is a trait. -/
def bound (g : Grammar) : Reader Bool := do
  if ← ahead atLifetime then skip 1; return false
  if ← word? "use" then
    mark "<"
    let _ ← separatedUntil "," (atMark ">") do
      if ← ahead atLifetime then skip 1
      else expect (fun ts => atIdentifier ts || atWord "Self" ts); skip 1
    mark ">"
    return false
  if ← ahead (atGroup .parens) then group .parens (traitBound g) else traitBound g
  return true

/-- A path, perhaps behind a type in angle brackets. -/
def qualifiedPath (g : Grammar) (inExpression : Bool) : Reader ReadPath := do
  if ← mark? "<" then
    let _ ← g (.type true)
    if ← word? "as" then let _ ← path g false
    mark ">"
    mark "::"
    let first ← segment g inExpression
    let rest ← repeated do
      if ← mark? "::" then return some (← segment g inExpression) else return none
    let last := rest.getLast?.getD first
    return ⟨last.meaning, false, false, !last.filled, true⟩
  else path g inExpression

/-- What another bound may start with. -/
def atBound (ts : List Token) : Bool :=
  atAnyWord ts || atMark "::" ts || atMark "?" ts || atLifetime ts || atGroup .parens ts ||
    atMark "~" ts

/-- Bounds behind a plus sign; whether there is a trait among them. -/
def moreBounds (g : Grammar) : Reader Bool := do
  let found ← repeated do
    if ← mark? "+" then
      if ← ahead atBound then return some (← g .bound) else return some false
    else return none
  return found.any id

/-- The bounds of a type, one of which must be a trait. -/
def boundsOf (g : Grammar) (sums : Bool) : Reader Unit := do
  let first ← g .bound
  let more ← if sums then moreBounds g else pure false
  if first || more then pure () else failure

/-- The convention of a foreign function. -/
def foreign : Reader Unit := do
  word "extern"
  let _ ← attempt? textLiteral

def functionParam (g : Grammar) : Reader Unit := do
  let _ ← Attribute.outer g
  let ts ← get
  if (atIdentifier ts || atWord "_" ts || atWord "self" ts) && atMark ":" (ts.drop 1) &&
      !atMark "::" (ts.drop 1) then skip 2
  if ← mark? "..." then pure () else let _ ← g (.type true)

def functionType (g : Grammar) : Reader Unit := do
  let _ ← word? "unsafe"
  if ← ahead (atWord "extern") then foreign
  word "fn"
  let _ ← group .parens (commas (functionParam g))
  returned g false

/-- A type that stands for free-form values. -/
def free (form : TypeForm) : ReadType := ⟨.anything, form⟩

/-- What a type in parentheses is when it is not followed by a plus sign: itself, a tuple, or the
bounds of an object. -/
def parenthesized (g : Grammar) : Reader ReadType := do
  let ts ← get
  if ts.isEmpty then return free .other
  if atLifetime ts then boundsOf g true; return free .other
  let first ← g (.type true)
  if ← mark? "," then
    let _ ← commas (g (.type true))
    return free .other
  return first

def inParens (g : Grammar) (sums : Bool) : Reader ReadType := do
  let body ← groupBody .parens
  if atMark "?" body then
    match readAll? (traitBound g) body with
    | none => failure
    | some _ => let _ ← moreBounds g; return free .other
  match readAll? (parenthesized g) body with
  | none => failure
  | some t =>
    -- what stood in the parentheses was the first of several bounds
    if sums && (← ahead (atMark "+")) && t.form ≠ .other then
      let _ ← moreBounds g
      return free .other
    else return ⟨t.meaning, .other⟩

def fromPath (g : Grammar) (sums binder : Bool) : Reader ReadType := do
  let p ← qualifiedPath g false
  if p.qualified then return ⟨p.last, .other⟩
  let ts ← get
  if atMark "!" ts && !atMark "!=" ts && p.plain then
    skip 1
    let _ ← anyGroup
    return free .other
  if sums && atMark "+" ts then
    let _ ← moreBounds g
    return free .other
  if binder then return free .bound
  return ⟨p.last, if p.single then .name else .path⟩

def inBrackets (g : Grammar) : Reader TypeExpr := do
  let item ← g (.type true)
  if ← mark? ";" then let _ ← g (.expression true)
  return .listOf item.meaning

def read (g : Grammar) (sums : Bool) : Reader ReadType := do
  let binder ← forLifetimes? g
  let ts ← get
  let startsFunction := atWords ["fn", "unsafe", "extern"] ts
  -- a binder of lifetimes must have something to bind in
  if binder && !(startsFunction || atPathWord ts) then failure
  else if atGroup .parens ts then inParens g sums
  else if startsFunction then functionType g; return free .other
  else if atPathWord ts || atMark "::" ts || atMark "<" ts then fromPath g sums binder
  -- what has no name of its own means anything at all
  else if atWord "dyn" ts then
    skip 1
    let _ ← mark? "*"
    boundsOf g sums
    return free .other
  else if atGroup .brackets ts then return ⟨← group .brackets (inBrackets g), .other⟩
  else if atMark "*" ts then
    skip 1
    if ← word? "const" then pure () else word "mut"
    let _ ← g (.type false)
    return free .other
  -- a reference means what it refers to
  else if atMark "&" ts then
    skip 1
    if ← ahead atLifetime then skip 1
    let _ ← word? "mut"
    let t ← g (.type false)
    return ⟨t.meaning, .other⟩
  else if atMark "!" ts then skip 1; return free .other
  else if atWord "impl" ts then skip 1; boundsOf g sums; return free .other
  else if atWord "_" ts then skip 1; return free .other
  else if atLifetime ts then boundsOf g true; return free .bound
  else failure

/-! ### Parameters of declarations -/

/-- The bounds behind a colon, up to where they end. -/
def boundList (g : Grammar) (stop : List Token → Bool) : Reader Unit := do
  let _ ← separatedUntil "+" stop (g .bound)

/-- One parameter in angle brackets; the name of a type parameter counts. -/
def genericParam (g : Grammar) : Reader (Option String) := do
  let _ ← Attribute.outer g
  let ts ← get
  if atLifetime ts then
    lifetimeParam g
    return none
  else if ← word? "const" then
    let _ ← identifier
    mark ":"
    let _ ← g (.type true)
    if ← mark? "=" then constant g
    return none
  else
    let name ← if atWord "_" ts then skip 1; pure "_" else identifier
    if ← mark? ":" then
      boundList g (fun ts => atMark "," ts || atMark ">" ts || atMark "=" ts)
    if ← mark? "=" then let _ ← g (.type true)
    return some name

/-- The parameters of a declaration, if it has any: the names of the type parameters. -/
def generics (g : Grammar) : Reader (List String) := do
  if ← mark? "<" then
    let params ← separatedUntil "," (atMark ">") (genericParam g)
    mark ">"
    return params.filterMap id
  else return []

/-- Where the conditions of a declaration end. -/
def atConditionsEnd (ts : List Token) : Bool :=
  ts.isEmpty || atGroup .braces ts || atMark "," ts || atMark ";" ts ||
    (atMark ":" ts && !atMark "::" ts) || atMark "=" ts

/-- One condition on a lifetime or a type. -/
def condition (g : Grammar) : Reader Unit := do
  let ts ← get
  if atLifetime ts && atMark ":" (ts.drop 1) then
    skip 2
    let _ ← separatedUntil "+" atConditionsEnd lifetime
  else
    let _ ← forLifetimes? g
    let _ ← g (.type true)
    mark ":"
    boundList g atConditionsEnd

/-- The conditions of a declaration, if it has any; whether it has. -/
def conditions (g : Grammar) : Reader Bool := do
  if ← word? "where" then
    let more : Reader (Option Unit) := do
      if atConditionsEnd (← get) then return none
      condition g
      if ← mark? "," then return some () else return none
    let _ ← repeated more
    return true
  else return false

end TypeSyntax

end EndpointDocs.Source
