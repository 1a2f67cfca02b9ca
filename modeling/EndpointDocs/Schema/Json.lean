import EndpointDocs.Schema

/-!
# Schemas as JSON

A schema is an object whose fields stand in a fixed order; what is not set is left out. A reader
skips fields that it does not know, takes a null field as one that is not set, except for
`properties` and `required`, and also accepts the array of all eleven fields in their order.
-/

namespace EndpointDocs.Schema

mutual

def toJson : Schema → Json
  | ⟨type, format, description, properties, required, items, additional, values, reference, anyOf,
      sample⟩ =>
    .object (
      Json.optional "type" type .string ++
      Json.optional "format" format .string ++
      Json.optional "description" description .string ++
      (if properties.isEmpty then []
       else [("properties", .object (toJsonProperties properties))]) ++
      (if required.isEmpty then [] else [("required", Json.strings required)]) ++
      toJsonOptional "items" items ++
      toJsonOptional "additionalProperties" additional ++
      Json.optional "enum" values Json.strings ++
      Json.optional "$ref" reference .string ++
      toJsonAlternatives anyOf ++
      Json.optional "example" sample id)

def toJsonProperties : List (String × Schema) → List (String × Json)
  | [] => []
  | (k, s) :: rest => (k, toJson s) :: toJsonProperties rest

/-- A field for a schema that may be missing. -/
def toJsonOptional (name : String) : Option Schema → List (String × Json)
  | none => []
  | some s => [(name, toJson s)]

def toJsonAlternatives : Option (List Schema) → List (String × Json)
  | none => []
  | some alternatives => [("anyOf", .array (toJsonAll alternatives))]

def toJsonAll : List Schema → List Json
  | [] => []
  | s :: rest => toJson s :: toJsonAll rest

end

/-- A text, or nothing for null. -/
def optionalText? : Json → Option (Option String)
  | .null => some none
  | .string s => some (some s)
  | _ => none

/-- A list of texts, all of which must be texts. -/
def texts? : Json → Option (List String)
  | .array items => items.mapM fun v => match v with
    | .string s => some s
    | _ => none
  | _ => none

def optionalTexts? : Json → Option (Option (List String))
  | .null => some none
  | v => (texts? v).map some

/-- The names of the fields in their order. -/
def fieldNames : List String :=
  ["type", "format", "description", "properties", "required", "items", "additionalProperties",
    "enum", "$ref", "anyOf", "example"]

/-- Set a field that holds no schema of its own; other fields are left alone. -/
def setPlain? (s : Schema) (name : String) (v : Json) : Option Schema :=
  if name = "type" then (optionalText? v).map fun t => { s with type := t }
  else if name = "format" then (optionalText? v).map fun t => { s with format := t }
  else if name = "description" then (optionalText? v).map fun t => { s with description := t }
  else if name = "required" then (texts? v).map fun ts => { s with required := ts }
  else if name = "enum" then (optionalTexts? v).map fun ts => { s with values := ts }
  else if name = "$ref" then (optionalText? v).map fun t => { s with reference := t }
  else if name = "example" then
    some (match v with
      | .null => { s with sample := none }
      | v => { s with sample := some v })
  else some s

mutual

/-- The schema that a value stands for, or nothing for null. -/
def optional? : Json → Option (Option Schema)
  | .null => some none
  | .object fields => (ofFields? fields {}).map some
  | .array items =>
    if items.length = fieldNames.length then (ofPositions? fieldNames items {}).map some else none
  | _ => none

/-- Set the fields one by one, in the order in which they come. -/
def ofFields? : List (String × Json) → Schema → Option Schema
  | [], s => some s
  | (name, v) :: rest, s =>
    if name = "properties" then
      (properties? v).bind fun ps => ofFields? rest { s with properties := ps }
    else if name = "items" then
      (optional? v).bind fun i => ofFields? rest { s with items := i }
    else if name = "additionalProperties" then
      (optional? v).bind fun a => ofFields? rest { s with additionalProperties := a }
    else if name = "anyOf" then
      (alternatives? v).bind fun as => ofFields? rest { s with anyOf := as }
    else (setPlain? s name v).bind (ofFields? rest)

/-- Set the fields that stand at their places. -/
def ofPositions? : List String → List Json → Schema → Option Schema
  | name :: names, v :: rest, s =>
    if name = "properties" then
      (properties? v).bind fun ps => ofPositions? names rest { s with properties := ps }
    else if name = "items" then
      (optional? v).bind fun i => ofPositions? names rest { s with items := i }
    else if name = "additionalProperties" then
      (optional? v).bind fun a => ofPositions? names rest { s with additionalProperties := a }
    else if name = "anyOf" then
      (alternatives? v).bind fun as => ofPositions? names rest { s with anyOf := as }
    else (setPlain? s name v).bind (ofPositions? names rest)
  | _, _, s => some s

def properties? : Json → Option (List (String × Schema))
  | .object fields => (entries? fields).map Entries.ofList
  | _ => none

/-- The properties of an object; none may be null. -/
def entries? : List (String × Json) → Option (List (String × Schema))
  | [] => some []
  | (k, v) :: rest => do return (k, (← (← optional? v))) :: (← entries? rest)

def alternatives? : Json → Option (Option (List Schema))
  | .null => some none
  | .array items => (all? items).map some
  | _ => none

def all? : List Json → Option (List Schema)
  | [] => some []
  | v :: rest => do return (← (← optional? v)) :: (← all? rest)

end

/-- The schema that a value stands for; null stands for none. -/
def ofJson? (v : Json) : Option Schema := (optional? v).bind id

end EndpointDocs.Schema
