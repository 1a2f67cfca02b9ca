import EndpointDocs.Element.Yaml
import EndpointDocs.FileTree
import EndpointDocs.Text.Ascii

/-!
# Files of element trees

    path ──look──▶ FileTree ──text?──▶ text ──readJson? / readYaml?──▶ Element

The extension of a file says how its text is read: `json`, in small or capital letters, as JSON, and
everything else as YAML.
-/

namespace EndpointDocs.Element

/-- The two ways to write an element tree. -/
inductive Writing where
  | json | yaml
deriving DecidableEq, Repr

def writingOf (path : String) : Writing :=
  if (FilePath.extension? path).any fun e => Text.lowerCase e = "json" then .json
  else .yaml

def read? (w : Writing) (text : String) : Option Element :=
  match w with
  | .json => readJson? text
  | .yaml => readYaml? text

inductive LoadError where
  /-- There is no file with a text. -/
  | unreadable (path : String)
  /-- The text is no element tree. -/
  | malformed (w : Writing) (path : String)
deriving DecidableEq, Repr

def LoadError.message : LoadError → String
  | unreadable path => "Failed to read file: " ++ path
  | malformed .json path => "Failed to parse JSON element tree: " ++ path
  | malformed .yaml path => "Failed to parse YAML element tree: " ++ path

/-- Load the element tree of a file; `look` says what is at a path. -/
def load (look : String → Option FileTree) (path : String) : Except LoadError Element :=
  match (look path).bind FileTree.text? with
  | none => .error (.unreadable path)
  | some text =>
    match read? (writingOf path) text with
    | some e => .ok e
    | none => .error (.malformed (writingOf path) path)

/-- A text that is there is loaded as it is read. -/
theorem load_of_read {look : String → Option FileTree} {path text : String} {e : Element}
    (hlook : look path = some (.ofText text)) (hread : read? (writingOf path) text = some e) :
    load look path = .ok e := by
  simp only [load, hlook, Option.bind_some, FileTree.text?_ofText, hread]

end EndpointDocs.Element
