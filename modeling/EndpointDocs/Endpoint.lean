import EndpointDocs.Element
import EndpointDocs.GenerationError
import EndpointDocs.OperationId
import EndpointDocs.Url

/-!
# Endpoints

The path and the method of a unit: its single `url` child, absolute or relative, names the path,
and its first `verb` child the method.
-/

namespace EndpointDocs.Endpoint

/-- The decoded path of a location; none if the text names no location with a path. -/
def pathOf? (raw : String) : Option String := do
  if raw = "" then none
  let url ← Url.resolve? raw
  if url.cannotBeABase then none
  return String.ofList (← Text.percentDecode? url.pathText.toList)

def path (unit : Element) : Except GenerationError String :=
  match unit.childrenNamed "url" with
  | [url] =>
    match pathOf? url.ownText with
    | some path => .ok path
    | none => .error (.invalidPath url.ownText)
  | urls => .error (.invalidPath (", ".intercalate (urls.map Element.ownText)))

def method (unit : Element) (path : String) : Except GenerationError Method :=
  let raw := ((unit.child? "verb").map Element.ownText).getD ""
  match Method.parse? raw with
  | some m => .ok m
  | none => .error (.invalidMethod raw path)

end EndpointDocs.Endpoint
