import EndpointDocs.Json.Printer
import EndpointDocs.Variant
import EndpointDocs.Yaml.Printer

/-!
# Output formats

Results and documents are written as YAML or as indented JSON. A document of its own goes into a
file named after its variant; characters of the variant that a file name should not hold become
underscores.
-/

namespace EndpointDocs

inductive Format where
  | yaml | json
deriving DecidableEq, Repr, Inhabited

namespace Format

/-- The name of a format, which is also the extension of its files. -/
def extension : Format → String
  | yaml => "yaml"
  | json => "json"

def parse? (name : String) : Option Format :=
  if name = "yaml" then some yaml else if name = "json" then some json else none

def render (format : Format) (v : Json) : String :=
  match format with
  | yaml => Yaml.render v
  | json => Json.pretty v

end Format

def staysInFileName (c : Char) : Bool := c.isAlphanum || c == '-' || c == '_'

def fileNamePart (s : String) : String :=
  String.ofList (s.toList.map fun c => if staysInFileName c then c else '_')

/-- The name of the file that holds the document of a variant. -/
def Variant.fileName (v : Variant) (format : Format) : String :=
  if v.isDefault then "openapi." ++ format.extension
  else "openapi-" ++ fileNamePart v.categorizer ++ "-" ++ fileNamePart v.title ++ "." ++
    format.extension

end EndpointDocs
