import EndpointDocs.Tags.Media
import EndpointDocs.Tags.Parameter

/-!
# Request bodies and responses

A `param` tag about the body must refer to a type. Of several such tags the first description and
the first `required` flag count, and the contents are merged.

A `response` tag has a status code, `default` or a number from 100 to 599. It need not refer to a
type; of several tags with one code the first description counts, and the contents are merged.
-/

namespace EndpointDocs.Tags

/-! ### Request bodies -/

/-- A request body that is also described by a tag. -/
def describeBody (body : RequestBody) (param : Element) (media : MediaType) : RequestBody where
  description := body.description <|> param.nonEmptyText?
  -- the first tag decides, even if it leaves the attribute out
  required := body.required <|> some (flag param "required" true)
  content := addMedia body.content (mediaTypeName param) media

def addBody (scope : Scope) (param : Element) : Step Operation := fun op => do
  match ← mediaOf scope param with
  | .error e => return (op, [.unresolved e])
  | .ok none => return (op, [.missingType param.name (nameOf param)])
  | .ok (some media) =>
    let body := describeBody (op.requestBody.getD {}) param media
    return ({ op with requestBody := some body }, [])

def requestBodyFilter : OperationFilter where
  name := "RequestBodyFilter"
  apply scope unit := .chain (((unit.childrenNamed "param").filter isAboutBody).map (addBody scope))

/-! ### Responses -/

/-- Three digits from 100 to 599. -/
def isStatusNumber : List Char → Bool
  | [a, b, c] => ('1' ≤ a && a ≤ '5') && b.isDigit && c.isDigit
  | _ => false

def isStatusCode (code : String) : Bool := code == "default" || isStatusNumber code.toList

def statusCodeOf (tag : Element) : String := (tag.trimmedAttribute? "code").getD ""

/-- A response that is also described by a tag. -/
def describeResponse (r : Response) (tag : Element) (media : Option MediaType) : Response where
  description := if r.description = "" then tag.ownText else r.description
  content := (media.map (addMedia r.content (mediaTypeName tag))).getD r.content

def responseFilterName : String := "ResponseFilter"

def addResponse (scope : Scope) (tag : Element) : Step Operation := fun op =>
  let code := statusCodeOf tag
  if isStatusCode code then do
    match ← mediaOf scope tag with
    | .error e => return (op, [.unresolved e])
    | .ok media =>
      let change := fun r : Option Response => describeResponse (r.getD {}) tag media
      return ({ op with responses := op.responses.alter code change }, [])
  else return (op, [.fault responseFilterName (.invalidResponseCode code)])

def responseFilter : OperationFilter where
  name := responseFilterName
  apply scope unit := .chain ((unit.childrenNamed "response").map (addResponse scope))

end EndpointDocs.Tags
