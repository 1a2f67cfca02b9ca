import EndpointDocs.Operation
import EndpointDocs.Variant

/-!
# Specification documents

A document lists the operations of one variant by path and method, with the components that they
refer to and the servers that offer them.
-/

namespace EndpointDocs

structure Info where
  title : String := ""
  version : String := ""
  description : Option String := none
deriving DecidableEq, Repr, Inhabited

structure Document where
  info : Info := {}
  servers : List String := []
  paths : KeyMap String PathItem := ∅
  components : KeyMap String Schema := ∅
deriving Inhabited

/-- The documents of a run by variant. -/
abbrev Documents := KeyMap Variant Document

/-- Title and version of documents that configure none. -/
structure Settings where
  title : String := "Generated API"
  version : String := "1.0.0"
deriving DecidableEq, Repr, Inhabited

namespace Document

/-- The version of the format that documents are written in. -/
def formatVersion : String := "3.0.0"

def operation? (d : Document) (path : String) (method : Method) : Option Operation :=
  (d.paths.get? path).bind (·.get? method)

def addOperation (d : Document) (path : String) (op : Operation) : Document :=
  { d with paths := d.paths.alter path fun item => (item.getD ∅).insert op.method op }

end Document

/-! ### As JSON -/

def Info.toJson (i : Info) : Json :=
  .object ([("title", .string i.title), ("version", .string i.version)] ++
    Json.optional "description" i.description .string)

def PathItem.toJson (item : PathItem) : Json :=
  .object (item.entries.map fun p => (p.1.key, p.2.toJson))

def Document.toJson (d : Document) : Json :=
  .object ([("openapi", .string formatVersion), ("info", d.info.toJson)] ++
    (if d.servers.isEmpty then []
     else [("servers", .array (d.servers.map fun url => .object [("url", .string url)]))]) ++
    [("paths", d.paths.toJson PathItem.toJson)] ++
    (if d.components.isEmpty then []
     else [("components", .object [("schemas", d.components.toJson Schema.toJson)])]))

def Variant.toJson (v : Variant) : Json :=
  .object [("categorizer", .string v.categorizer), ("title", .string v.title)]

/-- Documents with their variants, in the order of the variants. -/
def Documents.toJson (documents : Documents) : Json :=
  .array (documents.entries.map fun p =>
    .object [("variant", p.1.toJson), ("document", p.2.toJson)])

end EndpointDocs
