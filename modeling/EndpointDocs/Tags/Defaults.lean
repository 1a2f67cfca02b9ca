import EndpointDocs.Filter

/-!
# Annotations for all operations

The `operation` element of a configuration holds annotations for all operations. They are read like
the annotations of a unit, into an operation of their own that then fills what a documented
operation leaves unset. Annotations in a `variant` block addressed to the variant come first, so
they win over the general ones.
-/

namespace EndpointDocs.Tags

/-- The annotations of a configuration that count for a variant. -/
def annotationsFor (config : Element) (variant : Variant) : Element :=
  let blocks := config.children.filter variant.isAddressedBy
  let general := config.children.filter fun c => c.name ≠ "variant"
  { name := config.name, children := blocks.flatMap (·.children) ++ general }

/-- Fill what the operation of one method leaves unset. -/
def fillOperation (scope : Scope) (filters : List OperationFilter) (annotations : Element)
    (method : Method) : Step PathItem := fun item =>
  match item.get? method with
  | none => return (item, [])
  | some op => do
    let (defaults, found) ←
      OperationFilter.applyAll filters scope annotations { id := op.id, method }
    -- the rest of the chain was skipped, so the defaults are not complete
    if Step.anyFatal found then return (item, found)
    else return (item.insert method (op.fillUnsetFrom defaults), found)

def commonAnnotationFilter : OperationConfigFilter where
  name := "CommonAnnotationFilter"
  apply scope filters config := fun item =>
    let annotations := annotationsFor config scope.variant
    if annotations.children.isEmpty then return (item, [])
    else Step.chain (item.keys.map (fillOperation scope filters annotations)) item

end EndpointDocs.Tags
