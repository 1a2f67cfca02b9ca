import EndpointDocs.Tags.TypeReference

/-!
# Parameters

A `param` tag that is not about the body documents a parameter. Without an `in` attribute it is a
path parameter if the path has a placeholder of its name, and a query parameter otherwise. A faulty
tag is reported and left out; the first of several tags for one parameter counts.
-/

namespace EndpointDocs.Tags

/-- The tag is about the request body. -/
def isAboutBody (param : Element) : Bool :=
  (param.trimmedAttribute? "in").any fun s => Text.lowerCase s == "body"

/-- A yes-or-no attribute. -/
def flag (tag : Element) (key : String) (default : Bool) : Bool :=
  ((tag.trimmedAttribute? key).map fun s => Text.lowerCase s == "true").getD default

/-- The name that a tag gives, empty if it gives none. -/
def nameOf (tag : Element) : String := (tag.trimmedAttribute? "name").getD ""

def occursIn (part : List Char) : List Char → Bool
  | [] => part.isEmpty
  | c :: cs => part.isPrefixOf (c :: cs) || occursIn part cs

def hasPlaceholder (path name : String) : Bool :=
  occursIn ('{' :: name.toList ++ ['}']) path.toList

/-- Where the parameter of a tag stands, or what is wrong with the tag. -/
def locationOf (path : String) (param : Element) : Except Fault ParameterLocation :=
  if nameOf param = "" then .error .parameterWithoutName
  else match param.trimmedAttribute? "in" with
    | none => .ok (if hasPlaceholder path (nameOf param) then .path else .query)
    | some s =>
      match ParameterLocation.parse? s with
      | some location => .ok location
      | none => .error (.unknownLocation (nameOf param) s)

/-- The parameter of a tag, once its location and schema are known. -/
def parameterOf (param : Element) (location : ParameterLocation) (schema : Option Schema) :
    Parameter where
  name := nameOf param
  location := location
  -- a placeholder is always filled
  required := location == .path || flag param "required" false
  description := param.nonEmptyText?
  schema := schema.getD (.typed "string")

def parameterFilterName : String := "ParameterFilter"

def addParameter (scope : Scope) (param : Element) : Step Operation := fun op =>
  match locationOf scope.path param with
  | .error fault => return (op, [.fault parameterFilterName fault])
  | .ok location =>
    if op.hasParameter (nameOf param) location then return (op, [])
    else do
      match ← schemaOf scope param with
      | .error e => return (op, [.unresolved e])
      | .ok schema => return (op.addParameter (parameterOf param location schema), [])

def parameterFilter : OperationFilter where
  name := parameterFilterName
  apply scope unit :=
    let params := (unit.childrenNamed "param").filter fun p => !isAboutBody p
    .chain (params.map (addParameter scope))

end EndpointDocs.Tags
