import EndpointDocs.Source.Expression

/-!
# Declarations in source text

Structures, enumerations and modules with their contents are kept; every other item is read and
forgotten. `Grammar.upTo n` is the grammar in which parts nest up to `n` deep, and `items?` reads a
whole text with a depth that no text of its length exceeds.
-/

namespace EndpointDocs.Source

namespace Declaration

/-- What may be seen from where. -/
def visibility : Reader Bool := do
  if ← word? "pub" then
    match ← get with
    | .group .parens body :: rest =>
      if atWords ["crate", "self", "super"] body then
        if body.length = 1 then set rest
      else if atWord "in" body then
        match readAll? plainPath (body.drop 1) with
        | some _ => set rest
        | none => failure
    | _ => pure ()
    return true
  else return false

/-! ### Structures and enumerations

These are what shapes come from: names, types, and of the attributes those that rename or skip.
Where conditions on type parameters may stand depends on the form of the fields, so both places are
read. -/

/-- A field with its name, which may be an underscore. -/
def namedField (g : Grammar) : Reader Field := do
  let attributes ← Attribute.outer g
  let _ ← visibility
  let name ← if ← ahead (atWord "_") then anyWord else identifier
  mark ":"
  let type ← g (.type true)
  return {
    name := some name
    type := type.meaning
    naming := Attribute.naming g attributes
    description := Attribute.description attributes }

/-- A field of a tuple structure. -/
def unnamedField (g : Grammar) : Reader Field := do
  let attributes ← Attribute.outer g
  let _ ← visibility
  let type ← g (.type true)
  return {
    name := none
    type := type.meaning
    naming := Attribute.naming g attributes
    description := Attribute.description attributes }

def namedFields (g : Grammar) : Reader (List Field) := group .braces (commas (namedField g))

def unnamedFields (g : Grammar) : Reader (List Field) := group .parens (commas (unnamedField g))

/-- The fields in one of three forms; conditions stand behind those in parentheses. -/
def struct (g : Grammar) : Reader Item := do
  word "struct"
  let name ← identifier
  let params ← TypeSyntax.generics g
  let conditioned ← TypeSyntax.conditions g
  let ts ← get
  if !conditioned && atGroup .parens ts then
    let fields ← unnamedFields g
    let _ ← TypeSyntax.conditions g
    mark ";"
    return .struct name params (.unnamed fields)
  else if atGroup .braces ts then return .struct name params (.named (← namedFields g))
  else mark ";"; return .struct name params .unit

/-- A variant, of which only the name and how it is written are kept. -/
def enumVariant (g : Grammar) : Reader EnumVariant := do
  let attributes ← Attribute.outer g
  let _ ← visibility
  let name ← identifier
  let ts ← get
  if atGroup .braces ts then let _ ← namedFields g
  else if atGroup .parens ts then let _ ← unnamedFields g
  if ← mark? "=" then let _ ← g (.expression true)
  return ⟨name, Attribute.naming g attributes⟩

def enum (g : Grammar) : Reader Item := do
  word "enum"
  let name ← identifier
  let _ ← TypeSyntax.generics g
  let _ ← TypeSyntax.conditions g
  return .enum name (← group .braces (commas (enumVariant g)))

/-- A union has its fields in braces and is no shape. -/
def union (g : Grammar) : Reader Unit := do
  word "union"
  let _ ← identifier
  let _ ← TypeSyntax.generics g
  let _ ← TypeSyntax.conditions g
  let _ ← namedFields g

/-- The items of a module or a file, with the attributes in front of them. -/
def contents (g : Grammar) : Reader (List Item) := do
  let _ ← Attribute.inner g
  manyWhile (fun ts => !ts.isEmpty) (g .item)

/-- A module with its contents. One in a file of its own says nothing here. -/
def module (g : Grammar) : Reader Item := do
  let _ ← word? "unsafe"
  word "mod"
  let _ ← if ← ahead (atWord "try") then anyWord else identifier
  if ← mark? ";" then return .other
  else return .module (← group .braces (contents g))

/-! ### Functions

A function is read to its end. What is in front of `fn` decides whether an item is one, so it is
looked at as a whole before anything is taken. -/

/-- The tokens behind a word, if it is in front. -/
def dropWord (w : String) (ts : List Token) : List Token := if atWord w ts then ts.drop 1 else ts

/-- A function is in front. One of a foreign block may be called safe instead of unsafe. -/
def atFunction (inForeign : Bool) (ts : List Token) : Bool :=
  let ts := dropWord "async" (dropWord "const" ts)
  let ts := if inForeign && atWord "safe" ts then ts.drop 1 else dropWord "unsafe" ts
  let ts := match ts with
    | .word w :: .literal (.text _) :: rest => if w.text = "extern" then rest else ts
    | _ => dropWord "extern" ts
  atWord "fn" ts

/-- The receiver of a method; a type may only stand behind one that is no reference. -/
def receiver (g : Grammar) : Reader Unit := do
  let isReference ← mark? "&"
  if isReference then let _ ← attempt? lifetime
  let _ ← word? "mut"
  word "self"
  if !isReference then
    if ← mark? ":" then let _ ← g (.type true)

/-- The three kinds of parameters. -/
inductive ParamKind where
  | receiver | typed | variadic
deriving DecidableEq

/-- A parameter of a function. A type with arguments may stand without a pattern. -/
def param (g : Grammar) : Reader ParamKind := do
  let _ ← Attribute.outer g
  if ← mark? "..." then return .variadic
  match ← attempt? (receiver g) with
  | some _ => return .receiver
  | none =>
    if ← ahead fun ts => atIdentifier ts && atMark "<" (ts.drop 1) then
      let _ ← g (.type true)
      return .typed
    else
      g .pattern
      mark ":"
      if ← mark? "..." then return .variadic
      let _ ← g (.type true)
      return .typed

/-- The parameters of a function: a receiver only in front, and the variadic one only at the end. -/
def paramList (g : Grammar) : Reader Unit :=
  group .parens do
    let kinds ← commas (param g)
    if (kinds.drop 1).contains .receiver || kinds.dropLast.contains .variadic then failure

/-- The word that says whether an item is safe to use, if there is one. -/
def safety (inForeign : Bool) : Reader Unit := do
  if ← word? "unsafe" then pure ()
  else if inForeign then let _ ← word? "safe"

/-- All of a function but its body. -/
def signature (g : Grammar) (inForeign : Bool) : Reader Unit := do
  let _ ← word? "const"
  let _ ← word? "async"
  safety inForeign
  if ← ahead (atWord "extern") then TypeSyntax.foreign
  word "fn"
  let _ ← identifier
  let _ ← TypeSyntax.generics g
  paramList g
  TypeSyntax.returned g true
  let _ ← TypeSyntax.conditions g

/-- A function with its body, or without one. -/
def function (g : Grammar) (inForeign : Bool) : Reader Unit := do
  signature g inForeign
  if ← mark? ";" then pure () else g .block

/-! ### Other items

Items of the remaining kinds declare no shape. They are read with care all the same, since a text
that breaks their rules declares nothing at all. -/

/-- A static value, with a type or a value or both. -/
def static (g : Grammar) : Reader Unit := do
  word "static"
  let _ ← word? "mut"
  let _ ← identifier
  if ← mark? ":" then
    let _ ← g (.type true)
    if ← mark? "=" then let _ ← g (.expression true)
  else
    mark "="
    let _ ← g (.expression true)
  mark ";"

/-- A static value of a foreign block is in front. -/
def atForeignStatic (ts : List Token) : Bool :=
  atWord "static" ts || (atWords ["unsafe", "safe"] ts && atWord "static" (ts.drop 1))

/-- A static value of a foreign block, which has a type in any case. -/
def foreignStatic (g : Grammar) : Reader Unit := do
  safety true
  word "static"
  let _ ← word? "mut"
  let _ ← identifier
  mark ":"
  let _ ← g (.type true)
  if ← mark? "=" then let _ ← g (.expression true)
  mark ";"

/-- A constant; its value may be left out in a trait. -/
def constant (g : Grammar) : Reader Unit := do
  word "const"
  if ← word? "_" then pure () else let _ ← identifier
  let _ ← TypeSyntax.generics g
  mark ":"
  let _ ← g (.type true)
  if ← mark? "=" then let _ ← g (.expression true)
  let _ ← TypeSyntax.conditions g
  mark ";"

/-- A name for a type, or a type that belongs to a trait. -/
def typeAlias (g : Grammar) : Reader Unit := do
  word "type"
  let _ ← identifier
  let _ ← TypeSyntax.generics g
  if ← mark? ":" then TypeSyntax.boundList g TypeSyntax.atConditionsEnd
  let _ ← TypeSyntax.conditions g
  if ← mark? "=" then let _ ← g (.type true)
  let _ ← TypeSyntax.conditions g
  mark ";"

/-- The call of a macro may be in front. -/
def atMacro (ts : List Token) : Bool :=
  atIdentifier ts || atWords ["self", "super", "crate"] ts || atMark "::" ts

/-- The call of a macro, which may give a name to what it defines. -/
def macroItem (named : Bool) : Reader Unit := do
  let _ ← plainPath
  mark "!"
  if named then
    if ← ahead (fun ts => atIdentifier ts || atWord "try" ts) then let _ ← anyWord
  if (← anyGroup) ≠ .braces then mark ";"

/-- Where members stand, which decides what they may be. -/
inductive MemberPlace where
  | trait | implementation | foreign
deriving DecidableEq

/-- The word in front of a member that others may replace. In an implementation it may also be the
name of a macro. -/
def atDefault (place : MemberPlace) (ts : List Token) : Bool :=
  atWord "default" ts &&
    match place with
    | .trait => true
    | .implementation => !atMark "!" (ts.drop 1)
    | .foreign => false

/-- One member: only a foreign block holds static values, and only it holds no constants. -/
def memberItem (g : Grammar) (place : MemberPlace) : Reader Unit := do
  let _ ← Attribute.outer g
  let visible ← visibility
  let replaceable ← ahead (atDefault place)
  if replaceable then skip 1
  let inForeign := place = .foreign
  let ts ← get
  if atFunction inForeign ts then function g inForeign
  else if !inForeign && atWord "const" ts then constant g
  else if inForeign && atForeignStatic ts then foreignStatic g
  else if atWord "type" ts then typeAlias g
  else if !visible && !replaceable && atMacro ts then macroItem false
  else failure

/-- The body of a trait, an implementation or a foreign block. -/
def members (g : Grammar) (place : MemberPlace) : Reader Unit :=
  group .braces do
    let _ ← Attribute.inner g
    let _ ← manyWhile (fun ts => !ts.isEmpty) (memberItem g place)

/-- A trait with its members, or another name for bounds. -/
def trait (g : Grammar) : Reader Unit := do
  let _ ← word? "unsafe"
  let _ ← word? "auto"
  word "trait"
  let _ ← identifier
  let _ ← TypeSyntax.generics g
  if ← mark? ":" then
    TypeSyntax.boundList g fun ts => ts.isEmpty || atWord "where" ts || atGroup .braces ts
  if ← mark? "=" then
    TypeSyntax.boundList g fun ts => ts.isEmpty || atWord "where" ts || atMark ";" ts
    let _ ← TypeSyntax.conditions g
    mark ";"
  else
    let _ ← TypeSyntax.conditions g
    members g .trait

/-- Whether parameters, and not the type in front of a path, are in front. -/
def atParams (ts : List Token) : Bool :=
  let second := ts.drop 1
  let third := ts.drop 2
  atMark "<" ts && (atMark ">" second || atMark "#" second ||
    ((atIdentifier second || atLifetime second) &&
      ((atMark ":" third && !atMark "::" third) || atMark "," third || atMark ">" third ||
        atMark "=" third)) || atWord "const" second)

/-- Of a type alone, or of a trait for it. -/
def implementation (g : Grammar) : Reader Unit := do
  let _ ← word? "default"
  let _ ← word? "unsafe"
  word "impl"
  if ← ahead atParams then let _ ← TypeSyntax.generics g
  let _ ← word? "const"
  let _ ← mark? "!"
  let _ ← g (.type true)
  if ← word? "for" then let _ ← g (.type true)
  let _ ← TypeSyntax.conditions g
  members g .implementation

/-- A foreign library, or a block of foreign items. -/
def foreign (g : Grammar) : Reader Unit := do
  let _ ← word? "unsafe"
  word "extern"
  if ← word? "crate" then
    if ← word? "self" then pure () else let _ ← identifier
    if ← word? "as" then
      if ← word? "_" then pure () else let _ ← identifier
    mark ";"
  else
    let _ ← attempt? textLiteral
    members g .foreign

/-- A path with what is taken from it: a name, another name for it, everything, or a list. -/
def useTree (g : Grammar) : Reader Unit := do
  let ts ← get
  if atPathWord ts || atWord "try" ts then
    skip 1
    if ← mark? "::" then g .useTree
    else if ← word? "as" then
      if ← word? "_" then pure () else let _ ← identifier
  else if atMark "*" ts then skip 1
  else if atGroup .braces ts then
    let _ ← group .braces (commas do
      let _ ← mark? "::"
      g .useTree)
  else failure

def use (g : Grammar) : Reader Unit := do
  word "use"
  let _ ← mark? "::"
  g .useTree
  mark ";"

/-- A macro by a definition of its own; its body is not looked into. -/
def macroDefinition : Reader Unit := do
  word "macro"
  let _ ← identifier
  if ← ahead (atGroup .parens) then skip 1
  expect (atGroup .braces)
  skip 1

/-- One item. What is in front decides what kind of item it is, in this order. -/
def item (g : Grammar) : Reader Item := do
  let _ ← Attribute.outer g
  let visible ← visibility
  let ts ← get
  let next := ts.drop 1
  -- functions go first, for they share their qualifiers with several other items
  if atFunction false ts then function g false; return .other
  else if atWord "extern" ts then foreign g; return .other
  else if atWord "use" ts then use g; return .other
  else if atWord "static" ts then static g; return .other
  else if atWord "const" ts then constant g; return .other
  else if atWord "unsafe" ts then
    if atWord "trait" next || (atWord "auto" next && atWord "trait" (ts.drop 2)) then trait g
    else if atWord "impl" next then implementation g
    else if atWord "extern" next then foreign g
    else let _ ← module g
    return .other
  -- only modules, structures and enumerations carry declarations
  else if atWord "mod" ts then module g
  else if atWord "type" ts then typeAlias g; return .other
  else if atWord "struct" ts then struct g
  else if atWord "enum" ts then enum g
  else if atWord "union" ts && atIdentifier next then union g; return .other
  else if atWord "trait" ts || (atWord "auto" ts && atWord "trait" next) then trait g; return .other
  else if atWord "impl" ts || (atWord "default" ts && !atMark "!" next) then
    implementation g
    return .other
  else if atWord "macro" ts then macroDefinition; return .other
  -- a macro call has no visibility
  else if !visible && atMacro ts then
    macroItem true
    return .other
  else failure

end Declaration

/-! ### Tying the knot

The parts of the grammar call each other through a parameter. It is filled in here, level by level,
so that all of them are defined by recursion on a depth. -/

/-- Read a part with a grammar for the parts inside of it. -/
def step (g : Grammar) : Grammar
  | .type sums => TypeSyntax.read g sums
  | .bound => TypeSyntax.bound g
  | .expression structs => Expression.read g structs
  | .operand structs => Expression.operand g structs
  | .operators structs left base => Expression.operators g structs left base
  | .statementExpression => Expression.statementExpression g
  | .pattern => Pattern.read g
  | .block => Expression.block g
  | .item => Declaration.item g
  | .useTree => Declaration.useTree g

/-- The grammar whose parts nest up to `n` deep. -/
def Grammar.upTo : Nat → Grammar
  | 0 => fun _ => failure
  | n + 1 => fun rule => step (upTo n) rule

/-- A depth that no text of the given length exceeds: each character opens at most a few parts. -/
def depthFor (length : Nat) : Nat := 8 * (length + 2)

/-- The text without a first line that names an interpreter. Such a line starts with `#!`, and no
bracket follows these two. -/
def withoutInterpreter (cs : List Char) : List Char :=
  match cs with
  | '#' :: '!' :: rest =>
    match Lexer.skipSpace (rest.length + 1) rest with
    | '[' :: _ => cs
    | _ => cs.dropWhile (· ≠ '\n')
  | _ => cs

/-- The items that a source text declares. -/
def items? (text : String) : Option (List Item) :=
  let cs := withoutInterpreter (Lexer.withoutMark text.toList)
  (tokens? cs).bind fun ts =>
    readAll? (Declaration.contents (Grammar.upTo (depthFor cs.length))) ts

/-- The type that an expression names, white space around it aside. -/
def typeExpr? (text : String) : Option TypeExpr :=
  let cs := Text.trimChars text.toList
  (tokens? cs).bind fun ts =>
    (readAll? (TypeSyntax.read (Grammar.upTo (depthFor cs.length)) true) ts).map ReadType.meaning

end EndpointDocs.Source
