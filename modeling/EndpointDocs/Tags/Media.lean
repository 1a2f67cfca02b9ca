import EndpointDocs.Tags.TypeReference
import EndpointDocs.Json.Draft

/-!
# Contents of bodies

A tag about a body gives a media type, types and examples. The first example also goes to the
schema: to the component, so that every use of it in the variant shows the example, if the schema is
a reference, and else to the schema itself.

Tags of one media type are merged: their schemas are alternatives, and of two examples of one key
the first is kept.
-/

namespace EndpointDocs.Tags

/-! ### Examples -/

/-- The text of an example: its `value` child or its own text. -/
def exampleText (e : Element) : String :=
  match e.child? "value" with
  | some value => value.ownText
  | none => e.ownText

/-- An example's text is JSON or stands for itself. -/
def exampleValue (text : String) : Json := (Json.read? text).getD (.string text)

/-- The key of the example at a place, counted from one. -/
def exampleKey (place : Nat) (e : Element) : String :=
  match e.trimmedAttribute? "name" with
  | none | some "" => "example" ++ toString place
  | some name => name

/-- The examples from a place on; blank ones keep their place but are left out. -/
def examplesFrom (place : Nat) : List Element → List (String × Example)
  | [] => []
  | e :: rest =>
    let later := examplesFrom (place + 1) rest
    if exampleText e = "" then later
    else (exampleKey place e, ⟨e.attribute? "summary", exampleValue (exampleText e)⟩) :: later

def examplesOf (tag : Element) : List (String × Example) :=
  examplesFrom 1 (tag.childrenNamed "example")

/-- The first example of each key. -/
def firstOfEachKey (examples : List (String × Example)) : KeyMap String Example :=
  examples.foldl (fun m p => m.insertNew p.1 p.2) ∅

/-! ### Media -/

def mediaTypeName (tag : Element) : String :=
  match tag.trimmedAttribute? "type" with
  | none | some "" => "application/json"
  | some name => name

/-- Set the example of the component that a schema refers to; whether there is one. -/
def setComponentExample (variant : Variant) (s : Schema) (value : Json) : Resolving Bool :=
  match s.refKey? with
  | none => return false
  | some key => modifyGet fun r => r.injectSample key variant value

/-- Show an example with a schema. -/
def showExample (variant : Variant) (s : Schema) (value : Json) : Resolving Schema := do
  if ← setComponentExample variant s value then return s
  else return { s with sample := some value }

/-- The media of a tag, once its schema is known. -/
def mediaOfSchema (variant : Variant) (tag : Element) (s : Schema) : Resolving MediaType := do
  let examples := examplesOf tag
  let schema ← match examples.head? with
    | some (_, first) => showExample variant s first.value
    | none => pure s
  return ⟨schema, firstOfEachKey examples⟩

/-- The media of a tag; none if it refers to no type. -/
def mediaOf (scope : Scope) (tag : Element) :
    Resolving (Except ResolutionError (Option MediaType)) := do
  match ← schemaOf scope tag with
  | .error e => return .error e
  | .ok none => return .ok none
  | .ok (some s) => return .ok (some (← mediaOfSchema scope.variant tag s))

/-- Media that are also described by others. -/
def mergeMedia (known other : MediaType) : MediaType where
  schema := known.schema.widen other.schema
  examples := other.examples.entries.foldl (fun m p => m.insertNew p.1 p.2) known.examples

def addMedia (content : KeyMap String MediaType) (name : String) (media : MediaType) :
    KeyMap String MediaType :=
  content.alter name fun known => (known.map (mergeMedia · media)).getD media

end EndpointDocs.Tags
