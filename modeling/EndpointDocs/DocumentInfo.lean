import EndpointDocs.Filter

/-!
# Title, version and description of a document

The `document` element of a configuration may hold `info` elements: inside `variant` blocks for one
variant, and one for all. For each of the three parts the first of them that sets it counts, those
of the variant first. What none sets comes from the settings.
-/

namespace EndpointDocs.DocumentInfo

/-- Title and version from the settings, where they are empty. -/
def complete (settings : Settings) (info : Info) : Info :=
  { info with
    title := if info.title = "" then settings.title else info.title
    version := if info.version = "" then settings.version else info.version }

/-- The `info` elements that count for a variant, the strongest first. -/
def candidates (config : Element) (variant : Variant) : List Element :=
  (config.children.filter variant.isAddressedBy).filterMap (·.child? "info") ++
    (config.child? "info").toList

/-- The value of an attribute, if it is not blank. -/
def nonEmptyAttribute? (key : String) (e : Element) : Option String :=
  (e.trimmedAttribute? key).filter (· ≠ "")

def configure (candidates : List Element) (info : Info) : Info where
  title := (candidates.findSome? (nonEmptyAttribute? "title")).getD info.title
  version := (candidates.findSome? (nonEmptyAttribute? "version")).getD info.version
  description := candidates.findSome? Element.nonEmptyText? <|> info.description

def infoFilter : DocumentFilter where
  name := "InfoFilter"
  apply settings _ _ d := ({ d with info := complete settings d.info }, [])

def configFilter : DocumentConfigFilter where
  name := "DocumentInfoFilter"
  apply _ config documents :=
    (documents.mapValues fun variant d =>
      { d with info := configure (candidates config variant) d.info }, [])

end EndpointDocs.DocumentInfo
