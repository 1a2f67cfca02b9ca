import EndpointDocs.Yaml.Token

/-!
# Nodes of a YAML text

    text ──tokens?──▶ List Token ──Node.read?──▶ Node

A text holds one document, which is one node: a scalar, a sequence or a mapping. A node may be left
out, and is then an empty scalar. A reference stands for the node with its anchor; one inside that
node itself is never finished.
-/

namespace EndpointDocs.Yaml

inductive Node where
  | scalar (isPlain : Bool) (tag : Option String) (text : String)
  | sequence (items : List Node)
  | mapping (fields : List (Node × Node))
  /-- A reference to a node around it. -/
  | unfinished
deriving Repr, Inhabited

namespace Node

/-- A node that is left out. -/
def empty : Node := .scalar true none ""

/-! ### Reading -/

/-- An anchor and its node, as far as it is known. -/
structure Anchored where
  name : String
  /-- Tells anchors of one name apart. -/
  serial : Nat
  node : Node

/-- What is left of the tokens, and what has been declared. -/
structure Progress where
  tokens : List Token
  anchors : List Anchored := []
  handles : List (String × String) := []

abbrev Reader (α : Type) := StateT Progress Option α

namespace Reader

def head? : Reader (Option Token) := return (← get).tokens.head?

def next : Reader Unit := modify fun p => { p with tokens := p.tokens.tail }

/-- Take the given token if it is next; whether it was. -/
def accept (t : Token) : Reader Bool := do
  if (← head?) == some t then
    next
    return true
  else return false

/-- One of the given tokens is next, or none at all. -/
def isAtAny (ts : List Token) : Reader Bool := return (← head?).all (ts.contains ·)

/-! ### Properties -/

structure Properties where
  anchor : Option String := none
  tag : Option String := none

/-- What a handle of tags stands for. -/
def handleMeaning? (handles : List (String × String)) (handle : String) : Option String :=
  if handle = "" then some ""
  else match handles.find? (·.1 == handle) with
    | some (_, start) => some start
    | none =>
      if handle = "!" then some "!"
      else if handle = "!!" then some "tag:yaml.org,2002:"
      else none

/-- Take the properties in front of a node: an anchor and a tag, in either order. -/
def properties : Nat → Properties → Reader Properties
  | 0, p => return p
  | n + 1, p => do
    match ← head? with
    | some (.anchor name) =>
      if p.anchor.isSome then return p
      else
        next
        properties n { p with anchor := some name }
    | some (.tag handle rest) =>
      if p.tag.isSome then return p
      else
        next
        match handleMeaning? (← get).handles handle with
        | some start => properties n { p with tag := some (start ++ rest) }
        | none => failure
    | _ => return p

/-- The node that a reference names. -/
def referred (name : String) : Reader Node := do
  match (← get).anchors.find? (·.name == name) with
  | some a => return a.node
  | none => failure

/-- Read a node under its anchor, which stands for it once it is complete. -/
def anchored (anchor : Option String) (read : Reader Node) : Reader Node := do
  match anchor with
  | none => read
  | some name =>
    -- the reader may declare more anchors, some of them of this name
    let serial := (← get).anchors.length
    modify fun p => { p with anchors := ⟨name, serial, .unfinished⟩ :: p.anchors }
    let node ← read
    modify fun p => { p with anchors := p.anchors.map fun a =>
      if a.serial == serial then { a with node } else a }
    return node

/-! ### Nodes -/

/-- Read what follows unless one of the given tokens is next: then the node is left out. -/
def unlessAt (stops : List Token) (read : Reader Node) : Reader Node := do
  if ← isAtAny stops then return Node.empty else read

/-- The readers of nodes inside others: inside a block, as the value or key of a block mapping
(where a sequence need not be indented), and inside brackets. -/
structure Inner where
  inBlock : Reader Node
  inMapping : Reader Node
  inFlow : Reader Node

/-- The entries of a block sequence up to the end of the block. -/
def blockItems (inner : Inner) : Nat → Reader (List Node)
  | 0 => failure
  | n + 1 => do
    if ← accept .entry then
      let item ← unlessAt [.entry, .blockEnd] inner.inBlock
      return item :: (← blockItems inner n)
    else if ← accept .blockEnd then return []
    else failure

/-- The entries of a sequence that is not indented. -/
def looseItems (inner : Inner) : Nat → Reader (List Node)
  | 0 => failure
  | n + 1 => do
    if ← accept .entry then
      let item ← unlessAt [.entry, .key, .value, .blockEnd] inner.inBlock
      return item :: (← looseItems inner n)
    else return []

/-- The fields of a block mapping up to the end of the block. -/
def blockFields (inner : Inner) : Nat → Reader (List (Node × Node))
  | 0 => failure
  | n + 1 => do
    let stops := [Token.key, .value, .blockEnd]
    if ← accept .key then
      let key ← unlessAt stops inner.inMapping
      let value ← if ← accept .value then unlessAt stops inner.inMapping else pure Node.empty
      return (key, value) :: (← blockFields inner n)
    else if ← accept .blockEnd then return []
    else failure

/-- A field that stands alone as an item between square brackets, behind its sign. -/
def soleField (inner : Inner) : Reader Node := do
  let key ←
    if ← isAtAny [.value, .comma, .flowSequenceEnd] then
      next
      pure Node.empty
    else inner.inFlow
  let value ←
    if ← accept .value then unlessAt [.comma, .flowSequenceEnd] inner.inFlow
    else pure Node.empty
  return .mapping [(key, value)]

def flowItems (inner : Inner) : Nat → (first : Bool) → Reader (List Node)
  | 0, _ => failure
  | n + 1, first => do
    if ← accept .flowSequenceEnd then return []
    else
      if !first && !(← accept .comma) then failure
      if ← accept .key then
        let item ← soleField inner
        return item :: (← flowItems inner n false)
      else if ← accept .flowSequenceEnd then return []
      else
        let item ← inner.inFlow
        return item :: (← flowItems inner n false)

def flowFields (inner : Inner) : Nat → (first : Bool) → Reader (List (Node × Node))
  | 0, _ => failure
  | n + 1, first => do
    if ← accept .flowMappingEnd then return []
    else
      if !first && !(← accept .comma) then failure
      if ← accept .key then
        let key ← unlessAt [.value, .comma, .flowMappingEnd] inner.inFlow
        let value ←
          if ← accept .value then unlessAt [.comma, .flowMappingEnd] inner.inFlow
          else pure Node.empty
        return (key, value) :: (← flowFields inner n false)
      else if ← accept .flowMappingEnd then return []
      else
        let key ← inner.inFlow
        return (key, Node.empty) :: (← flowFields inner n false)

/-- The content of a node behind its properties. -/
def content (inner : Inner) (block loose : Bool) (p : Properties) : Reader Node := do
  let n := (← get).tokens.length + 1
  match ← head? with
  | some .entry =>
    -- entries may stand at the column of the key that they belong to
    if loose then return .sequence (← looseItems inner n)
    else omitted
  | some (.scalar isPlain text) =>
    next
    return .scalar isPlain p.tag text
  | some .flowSequence =>
    next
    return .sequence (← flowItems inner n true)
  | some .flowMapping =>
    next
    return .mapping (← flowFields inner n true)
  | some .blockSequence =>
    -- block collections do not stand inside of flow collections
    if block then
      next
      return .sequence (← blockItems inner n)
    else omitted
  | some .blockMapping =>
    if block then
      next
      return .mapping (← blockFields inner n)
    else omitted
  | _ => omitted
where
  /-- Only a node with properties may be without content. -/
  omitted : Reader Node :=
    if p.anchor.isSome || p.tag.isSome then return .scalar true p.tag "" else failure

def node (inner : Inner) (block loose : Bool) : Reader Node := do
  match ← head? with
  | some (.reference name) =>
    next
    referred name
  | _ =>
    let p ← properties 2 {}
    anchored p.anchor (content inner block loose p)

/-- The readers of nodes that nest at most `n` deep. -/
def innerUpTo : Nat → Inner
  | 0 => ⟨failure, failure, failure⟩
  | n + 1 =>
    let inner := innerUpTo n
    ⟨node inner true false, node inner true true, node inner false false⟩

/-! ### Documents -/

/-- Take the directives in front of a document; whether there are any. -/
def directives : Nat → (versions : Nat) → Reader Bool
  | 0, _ => failure
  | n + 1, versions => do
    match ← head? with
    | some (.version major minor) =>
      if versions != 0 || major != 1 || (minor != 1 && minor != 2) then failure
      next
      let _ ← directives n 1
      return true
    | some (.handle name start) =>
      if (← get).handles.any (·.1 == name) then failure
      next
      modify fun p => { p with handles := p.handles ++ [(name, start)] }
      let _ ← directives n versions
      return true
    | _ => return false

/-- Take marks that end documents. -/
def endMarks : Nat → Reader Unit
  | 0 => return ()
  | n + 1 => do
    if ← accept .documentEnd then endMarks n

/-- The only document of a text. -/
def document : Reader Node := do
  let n := (← get).tokens.length + 1
  let inner := innerUpTo n
  let declared ← directives n 0
  let explicit ← accept .documentStart
  if declared && !explicit then failure
  if (← head?).isNone && !explicit then failure
  let root ←
    if explicit && (← isAtAny [.documentStart, .documentEnd]) then pure Node.empty
    else inner.inBlock
  endMarks n
  if (← head?).isSome then failure
  return root

end Reader

def ofTokens? (tokens : List Token) : Option Node :=
  (Reader.document.run { tokens }).map Prod.fst

def read? (text : String) : Option Node := (tokens? text).bind ofTokens?

end Node

end EndpointDocs.Yaml
