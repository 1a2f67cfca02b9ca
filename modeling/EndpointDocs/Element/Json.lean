import EndpointDocs.Element
import EndpointDocs.Json.Draft

/-!
# Element trees as JSON

An element is an object with the fields `name`, `attributes`, `children` and `text`; the last three
are left out when they are empty. A reader also takes the array of the four in this order, with
items left off at the end, and skips fields that it does not know. A field that stands twice, a
missing name, and a part of the wrong kind make the text no element.
-/

namespace EndpointDocs.Element

mutual

def toJson : Element → Json
  | ⟨name, attributes, children, text⟩ =>
    .object ([("name", .string name)] ++
      (if attributes.isEmpty then []
       else [("attributes", .object (attributes.entries.map fun p => (p.1, .string p.2)))]) ++
      (if children.isEmpty then [] else [("children", .array (toJsonAll children))]) ++
      Json.optional "text" text .string)

def toJsonAll : List Element → List Json
  | [] => []
  | e :: rest => toJson e :: toJsonAll rest

end

/-- What has been read of an element so far. -/
structure Parts where
  name : Option String := none
  attributes : Option (KeyMap String String) := none
  children : Option (List Element) := none
  text : Option (Option String) := none

namespace Parts

/-- The element made of the parts; only the name must be there. -/
def element? (p : Parts) : Option Element :=
  p.name.map fun name =>
    ⟨name, p.attributes.getD ∅, p.children.getD [], p.text.getD none⟩

/-- Each part may be set once. -/
def setName (p : Parts) (v : String) : Option Parts :=
  if p.name.isSome then none else some { p with name := some v }

def setAttributes (p : Parts) (v : KeyMap String String) : Option Parts :=
  if p.attributes.isSome then none else some { p with attributes := some v }

def setChildren (p : Parts) (v : List Element) : Option Parts :=
  if p.children.isSome then none else some { p with children := some v }

def setText (p : Parts) (v : Option String) : Option Parts :=
  if p.text.isSome then none else some { p with text := some v }

end Parts

/-- The text that a draft is, if it is a string with a meaning. -/
def stringOf? : Draft → Option String
  | .string s => s
  | _ => none

def textOf? : Draft → Option (Option String)
  | .null => some none
  | .string s => s.map some
  | _ => none

/-- A map from texts to texts inside `depth` arrays and objects. -/
def attributesOf? (depth : Nat) : Draft → Option (KeyMap String String)
  | .object fields =>
    if depth < Json.maxDepth then
      (fields.mapM fun (p : Option String × Draft) => do
        return ((← p.1), (← stringOf? p.2))).map KeyMap.ofList
    else none
  | _ => none

mutual

/-- The element that a draft inside `depth` arrays and objects stands for. -/
def ofDraftAt? (depth : Nat) : Draft → Option Element
  | .object fields =>
    if depth < Json.maxDepth then (partsAt? (depth + 1) fields {}).bind Parts.element? else none
  | .array items =>
    if depth < Json.maxDepth then (positionalAt? (depth + 1) items).bind Parts.element? else none
  | _ => none

/-- Read fields in any order into the parts. -/
def partsAt? (depth : Nat) : List (Option String × Draft) → Parts → Option Parts
  | [], p => some p
  | (key, v) :: rest, p =>
    match key with
    | none => none
    | some key =>
      if key = "name" then ((stringOf? v).bind p.setName).bind (partsAt? depth rest)
      else if key = "attributes" then
        ((attributesOf? depth v).bind p.setAttributes).bind (partsAt? depth rest)
      else if key = "children" then
        ((childrenAt? depth v).bind p.setChildren).bind (partsAt? depth rest)
      else if key = "text" then ((textOf? v).bind p.setText).bind (partsAt? depth rest)
      else partsAt? depth rest p

/-- Read the parts in their order. -/
def positionalAt? (depth : Nat) : List Draft → Option Parts
  | [name] => do return { name := some (← stringOf? name) }
  | [name, attributes] => do
    return { name := some (← stringOf? name),
             attributes := some (← attributesOf? depth attributes) }
  | [name, attributes, children] => do
    return { name := some (← stringOf? name), attributes := some (← attributesOf? depth attributes),
             children := some (← childrenAt? depth children) }
  | [name, attributes, children, text] => do
    return { name := some (← stringOf? name), attributes := some (← attributesOf? depth attributes),
             children := some (← childrenAt? depth children), text := some (← textOf? text) }
  | _ => none

def childrenAt? (depth : Nat) : Draft → Option (List Element)
  | .array items => if depth < Json.maxDepth then elementsAt? (depth + 1) items else none
  | _ => none

def elementsAt? (depth : Nat) : List Draft → Option (List Element)
  | [] => some []
  | v :: rest => do return (← ofDraftAt? depth v) :: (← elementsAt? depth rest)

end

def ofJson? (v : Json) : Option Element := ofDraftAt? 0 (.ofJson v)

def readJson? (text : String) : Option Element := (Draft.read? text).bind (ofDraftAt? 0)

theorem readJson?_ofList (cs : List Char) :
    readJson? (String.ofList cs) = (Draft.ofChars? cs).bind (ofDraftAt? 0) := by
  rw [readJson?, Draft.read?, String.toList_ofList]

end EndpointDocs.Element
