import EndpointDocs.Method
import EndpointDocs.Schema.Json
import EndpointDocs.Text.Ascii
import EndpointDocs.Text.Blank

/-!
# Documented operations

An operation has an id, texts, tags, parameters, a request body and responses. `fillUnsetFrom` adds
to an operation what it lacks and another one has; it never changes what is there.
-/

namespace EndpointDocs

/-- Where a parameter stands in a request. -/
inductive ParameterLocation where
  | path | query | header | cookie
deriving DecidableEq, Repr, Inhabited

namespace ParameterLocation

/-- The name of a location in a document. -/
def name : ParameterLocation → String
  | path => "path"
  | query => "query"
  | header => "header"
  | cookie => "cookie"

/-- The location with the given name in any case, white space around it aside. -/
def parse? (s : String) : Option ParameterLocation :=
  [path, query, header, cookie].find? fun l => l.name = Text.lowerCase (Text.trim s)

end ParameterLocation

/-- A parameter is told from others by its name and its location. -/
structure Parameter where
  name : String
  location : ParameterLocation
  required : Bool
  description : Option String
  schema : Schema
deriving Inhabited

structure Example where
  summary : Option String
  value : Json
deriving Inhabited

/-- What bodies of one media type look like. -/
structure MediaType where
  schema : Schema
  examples : KeyMap String Example
deriving Inhabited

structure RequestBody where
  description : Option String := none
  required : Option Bool := none
  content : KeyMap String MediaType := ∅
deriving Inhabited

structure Response where
  description : String := ""
  content : KeyMap String MediaType := ∅
deriving Inhabited

/-- The response with a description, if one of the two has any. -/
def Response.describedBy (r other : Response) : Response :=
  if r.description = "" then { r with description := other.description } else r

/-- What is documented of one method of one path. -/
structure Operation where
  id : String
  method : Method
  summary : Option String := none
  description : Option String := none
  tags : List String := []
  parameters : List Parameter := []
  requestBody : Option RequestBody := none
  responses : KeyMap String Response := ∅
deriving Inhabited

/-- The operations of a path, one for each method. -/
abbrev PathItem := KeyMap Method Operation

namespace Operation

def hasParameter (op : Operation) (name : String) (location : ParameterLocation) : Bool :=
  op.parameters.any fun p => p.name = name && p.location = location

/-- Add a parameter unless there is one of its name and location. -/
def addParameter (op : Operation) (p : Parameter) : Operation :=
  if op.hasParameter p.name p.location then op
  else { op with parameters := op.parameters ++ [p] }

/-- Add a response, or only its description if there is one of its code. -/
def addResponse (op : Operation) (code : String) (r : Response) : Operation :=
  { op with responses := op.responses.alter code fun
      | none => r
      | some known => known.describedBy r }

/-- Fill what is unset from `defaults`. Parameters and responses are added if there is none of
their key; a known response only gets a description if it has none. -/
def fillUnsetFrom (op defaults : Operation) : Operation :=
  let op := { op with
    summary := op.summary <|> defaults.summary
    description := op.description <|> defaults.description
    tags := if op.tags.isEmpty then defaults.tags else op.tags
    requestBody := op.requestBody <|> defaults.requestBody }
  -- a known parameter is left as it is
  let op := defaults.parameters.foldl addParameter op
  defaults.responses.entries.foldl (fun op p => op.addResponse p.1 p.2) op

/-- The standard text of a status code. -/
def statusText (code : String) : String :=
  match code with
  | "default" => "Default response"
  | "100" => "Continue"
  | "200" => "OK"
  | "201" => "Created"
  | "202" => "Accepted"
  | "204" => "No Content"
  | "301" => "Moved Permanently"
  | "302" => "Found"
  | "304" => "Not Modified"
  | "400" => "Bad Request"
  | "401" => "Unauthorized"
  | "403" => "Forbidden"
  | "404" => "Not Found"
  | "405" => "Method Not Allowed"
  | "409" => "Conflict"
  | "410" => "Gone"
  | "415" => "Unsupported Media Type"
  | "422" => "Unprocessable Entity"
  | "429" => "Too Many Requests"
  | "500" => "Internal Server Error"
  | "501" => "Not Implemented"
  | "502" => "Bad Gateway"
  | "503" => "Service Unavailable"
  | "504" => "Gateway Timeout"
  | _ => "Response " ++ code

/-- Give every response without a description the standard text of its code. -/
def describeResponses (op : Operation) : Operation :=
  { op with responses := op.responses.mapValues fun code r =>
      if r.description = "" then { r with description := statusText code } else r }

end Operation

/-! ### As JSON

Fields are written in a fixed order. What is not set is left out, apart from the texts that a
document must have. -/

def KeyMap.toJson {α : Type} (m : KeyMap String α) (encode : α → Json) : Json :=
  .object (m.entries.map fun p => (p.1, encode p.2))

/-- A map as a field that is left out when it is empty. -/
def KeyMap.toField {α : Type} (name : String) (m : KeyMap String α) (encode : α → Json) :
    List (String × Json) :=
  if m.isEmpty then [] else [(name, m.toJson encode)]

def Parameter.toJson (p : Parameter) : Json :=
  .object ([("name", .string p.name), ("in", .string p.location.name),
      ("required", .bool p.required)] ++
    Json.optional "description" p.description .string ++ [("schema", p.schema.toJson)])

def Example.toJson (e : Example) : Json :=
  .object (Json.optional "summary" e.summary .string ++ [("value", e.value)])

def MediaType.toJson (m : MediaType) : Json :=
  .object (("schema", m.schema.toJson) :: m.examples.toField "examples" Example.toJson)

def RequestBody.toJson (b : RequestBody) : Json :=
  .object (Json.optional "description" b.description .string ++
    Json.optional "required" b.required .bool ++
    [("content", b.content.toJson MediaType.toJson)])

def Response.toJson (r : Response) : Json :=
  .object (("description", .string r.description) ::
    r.content.toField "content" MediaType.toJson)

def Operation.toJson (op : Operation) : Json :=
  .object ([("operationId", .string op.id)] ++
    Json.optional "summary" op.summary .string ++
    Json.optional "description" op.description .string ++
    (if op.tags.isEmpty then [] else [("tags", Json.strings op.tags)]) ++
    (if op.parameters.isEmpty then []
     else [("parameters", .array (op.parameters.map Parameter.toJson))]) ++
    Json.optional "requestBody" op.requestBody RequestBody.toJson ++
    [("responses", op.responses.toJson Response.toJson)])

end EndpointDocs
