import EndpointDocs.Document
import EndpointDocs.GenerationError
import EndpointDocs.Registry

/-!
# Filters

Operations and documents are built by lists of filters. A filter reads annotations, changes its
target and returns the errors that it met; it never stops the whole run.

There are four kinds, by target: an operation, the operations of a path, a document, all documents.
The filters of the first two kinds form chains: the errors of all are collected, and behind a
*fatal* error the rest of the chain is skipped (`chain_of_fatal`).
-/

namespace EndpointDocs

/-- A change of a target that uses the registry and may meet errors. -/
abbrev Step (α : Type) := α → Resolving (α × List GenerationError)

namespace Step

def pure {α : Type} (change : α → α) : Step α := fun a => return (change a, [])

def fail {α : Type} (e : GenerationError) : Step α := fun a => return (a, [e])

def anyFatal (errors : List GenerationError) : Bool := errors.any GenerationError.isFatal

/-- Two steps, the second one unless the first one meets a fatal error. -/
def andThen {α : Type} (first second : Step α) : Step α := fun a => do
  let (a, found) ← first a
  if anyFatal found then return (a, found)
  else
    let (a, more) ← second a
    return (a, found ++ more)

def chain {α : Type} : List (Step α) → Step α
  | [] => fun a => return (a, [])
  | step :: rest => step.andThen (chain rest)

/-- Behind a fatal error the rest of a chain is skipped. -/
theorem chain_of_fatal {α : Type} {step : Step α} {rest : List (Step α)} {a b : α} {r s : Registry}
    {errors : List GenerationError} (h : (step a).run r = some ((b, errors), s))
    (hf : anyFatal errors = true) : (chain (step :: rest) a).run r = some ((b, errors), s) := by
  simp only [chain, andThen, StateT.run_bind, h, Option.bind_eq_bind, Option.bind_some, hf, if_true]
  rfl

end Step

/-- What a filter of operations may ask for. -/
structure Scope where
  resolver : Resolver
  /-- How deep types are followed. -/
  depth : Nat
  variant : Variant
  path : String

/-- Builds a part of an operation from its annotation. -/
structure OperationFilter where
  name : String
  apply : Scope → Element → Step Operation

def OperationFilter.applyAll (filters : List OperationFilter) (scope : Scope) (unit : Element) :
    Step Operation :=
  Step.chain (filters.map fun f => f.apply scope unit)

/-- Applies the `operation` element of the configuration to the operations of a path. The filters
of operations are given for those that build operations of their own. -/
structure OperationConfigFilter where
  name : String
  apply : Scope → List OperationFilter → Element → Step PathItem

def OperationConfigFilter.applyAll (filters : List OperationConfigFilter) (scope : Scope)
    (operationFilters : List OperationFilter) (config : Element) : Step PathItem :=
  Step.chain (filters.map fun f => f.apply scope operationFilters config)

/-- Finishes the document of a variant, from the units in it. -/
structure DocumentFilter where
  name : String
  apply : Settings → Variant → List Element → Document → Document × List GenerationError

def DocumentFilter.applyAll (filters : List DocumentFilter) (settings : Settings)
    (variant : Variant) (units : List Element) (d : Document) : Document × List GenerationError :=
  filters.foldl (fun (d, errors) f =>
    let (d, found) := f.apply settings variant units d
    (d, errors ++ found)) (d, [])

/-- Applies the `document` element of the configuration to all documents. -/
structure DocumentConfigFilter where
  name : String
  apply : Settings → Element → Documents → Documents × List GenerationError

def DocumentConfigFilter.applyAll (filters : List DocumentConfigFilter) (settings : Settings)
    (config : Element) (documents : Documents) : Documents × List GenerationError :=
  filters.foldl (fun (documents, errors) f =>
    let (documents, found) := f.apply settings config documents
    (documents, errors ++ found)) (documents, [])

/-- The filters of a run, each list in the order in which it is applied. -/
structure FilterSet where
  operation : List OperationFilter
  operationConfig : List OperationConfigFilter
  document : List DocumentFilter
  documentConfig : List DocumentConfigFilter

end EndpointDocs
