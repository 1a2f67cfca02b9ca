import EndpointDocs.Filter

/-!
# Texts of an operation

The first `summary` is the summary of an operation, the first `remarks` its description, and every
`group` a tag. What an operation has already is kept.
-/

namespace EndpointDocs.Tags

def addSummary (unit : Element) (op : Operation) : Operation :=
  { op with summary := op.summary <|> (unit.child? "summary").bind Element.nonEmptyText? }

def addDescription (unit : Element) (op : Operation) : Operation :=
  { op with description := op.description <|> (unit.child? "remarks").bind Element.nonEmptyText? }

def addTag (op : Operation) (tag : String) : Operation :=
  if tag ∈ op.tags then op else { op with tags := op.tags ++ [tag] }

def addTags (unit : Element) (op : Operation) : Operation :=
  ((unit.childrenNamed "group").filterMap Element.nonEmptyText?).foldl addTag op

def summaryFilter : OperationFilter where
  name := "SummaryFilter"
  apply _ unit := .pure (addSummary unit)

def descriptionFilter : OperationFilter where
  name := "DescriptionFilter"
  apply _ unit := .pure (addDescription unit)

def tagFilter : OperationFilter where
  name := "TagFilter"
  apply _ unit := .pure (addTags unit)

end EndpointDocs.Tags
