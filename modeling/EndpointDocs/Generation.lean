import EndpointDocs.Tags.Standard
import EndpointDocs.Endpoint

/-!
# Generating documents

    annotations ──operations──▶ units ──buildUnit──▶ operations by variant ──commit──▶ documents

Every unit is built for the default variant and for each variant that it names. It is committed to
all of these documents, or to none if anything is wrong with it; then the components and examples
that it brought are taken back as well, and its outcome tells what was wrong. At the end each
document gets the components that its variant uses and is finished by the document filters; an error
there discards all documents.

The registry follows types to a given depth only; a run that needs more has no result.
-/

namespace EndpointDocs

/-! ### Outcomes -/

inductive OutcomeStatus where
  | success | failure
deriving DecidableEq, Repr

/-- What became of one unit. -/
structure Outcome where
  method : Option Method
  path : Option String
  status : OutcomeStatus
  message : String
  errorKind : Option ErrorKind
deriving DecidableEq, Repr

namespace Outcome

def success (path : Option String) (method : Option Method) (message : String) : Outcome :=
  ⟨method, path, .success, message, none⟩

/-- A failure is of the kind of its first error and reports every distinct message. -/
def failure (path : Option String) (method : Option Method) (errors : List GenerationError) :
    Outcome :=
  ⟨method, path, .failure, "; ".intercalate (distinct (errors.map GenerationError.message)),
    errors.head?.map GenerationError.kind⟩

def isSuccess (o : Outcome) : Bool := o.status == .success

end Outcome

structure GenerationResult where
  /-- One outcome for each unit, in document order. -/
  outcomes : List Outcome
  /-- The documents of the variants that have a committed unit. -/
  documents : Documents
  registry : Registry

namespace GenerationResult

def failures (r : GenerationResult) : List Outcome := r.outcomes.filter fun o => !o.isSuccess

/-- The document of the default variant, if a unit was committed. -/
def defaultDocument? (r : GenerationResult) : Option Document := r.documents.get? .default

end GenerationResult

/-! ### A run -/

/-- What stays the same during a run. -/
structure Plan where
  filters : FilterSet
  settings : Settings
  resolver : Resolver
  /-- How deep types are followed. -/
  depth : Nat
  categorizers : List String
  operationConfig : Option Element
  documentConfig : Option Element

/-- The plan for a configuration, which may be absent. -/
def Plan.ofConfig (filters : FilterSet) (settings : Settings) (resolver : Resolver) (depth : Nat)
    (config : Option Element) : Plan where
  filters := filters
  settings := settings
  resolver := resolver
  depth := depth
  categorizers := EndpointDocs.categorizers config
  operationConfig := config.bind (·.child? "operation")
  documentConfig := config.bind (·.child? "document")

/-- What a run has produced so far. -/
structure Run where
  registry : Registry := {}
  documents : Documents := ∅
  /-- The units in the document of each variant. -/
  committed : KeyMap Variant (List Element) := ∅
deriving Inhabited

/-! ### Building a unit -/

/-- Nothing of a path is left of an operation. -/
def removedError (method : Method) (path : String) : GenerationError :=
  .fault "Generator" (.operationRemoved method path)

/-- The operation after the configuration was applied to it. -/
def configureOperation (plan : Plan) (scope : Scope) (config : Element) (op : Operation) :
    Resolving (Except (List GenerationError) Operation) := do
  let (item, errors) ← OperationConfigFilter.applyAll plan.filters.operationConfig scope
    plan.filters.operation config ((∅ : PathItem).insert op.method op)
  if errors ≠ [] then return .error errors
  else match item.get? op.method with
    | some op => return .ok op
    | none => return .error [removedError op.method scope.path]

def buildOperation (plan : Plan) (unit : Element) (path : String) (method : Method)
    (variant : Variant) : Resolving (Except (List GenerationError) Operation) := do
  let scope : Scope := ⟨plan.resolver, plan.depth, variant, path⟩
  let (op, errors) ← OperationFilter.applyAll plan.filters.operation scope unit
    { id := OperationId.generate path method, method }
  if errors ≠ [] then return .error errors
  else match plan.operationConfig with
    | none => return .ok op
    | some config => configureOperation plan scope config op

/-- The operations that were built for variants, and the errors met for the others. -/
structure Built where
  operations : List (Variant × Operation) := []
  errors : List GenerationError := []
deriving Inhabited

/-- Build a unit for several variants; an error for one does not keep the others from being
built. -/
def buildVariants (plan : Plan) (unit : Element) (path : String) (method : Method) :
    List Variant → Resolving Built
  | [] => return {}
  | variant :: rest => do
    -- the registry goes on to the next variant even if this one has errors
    let result ← buildOperation plan unit path method variant
    let built ← buildVariants plan unit path method rest
    match result with
    | .ok op =>
      return { built with operations := (variant, op.describeResponses) :: built.operations }
    | .error errors => return { built with errors := errors ++ built.errors }

/-! ### Committing a unit -/

/-- An earlier unit has the same path and method in the document of a variant. -/
def isTaken (documents : Documents) (path : String) (method : Method) (variant : Variant) : Bool :=
  ((documents.get? variant).bind (·.operation? path method)).isSome

/-- The error for the first variant in which path and method are taken. -/
def duplicateErrors (documents : Documents) (path : String) (method : Method)
    (variants : List Variant) : List GenerationError :=
  ((variants.find? (isTaken documents path method)).map
    (GenerationError.duplicateOperation method path)).toList

def Run.commit (run : Run) (unit : Element) (path : String) (variant : Variant) (op : Operation) :
    Run :=
  { run with
    documents := run.documents.alter variant fun d => (d.getD {}).addOperation path op
    committed := run.committed.alter variant fun units => units.getD [] ++ [unit] }

def firstOfEachVariant (operations : List (Variant × Operation)) : List (Variant × Operation) :=
  operations.foldl (fun kept p => if p.1 ∈ kept.map Prod.fst then kept else kept ++ [p]) []

/-- Build a unit with known path and method, and commit it unless there is an error. -/
def addUnit (plan : Plan) (run : Run) (unit : Element) (path : String) (method : Method) :
    Option (Outcome × Run) := do
  let variants := variantsForUnit unit plan.categorizers
  let (built, registry) ← (buildVariants plan unit path method variants).run run.registry
  let errors := built.errors ++
    duplicateErrors run.documents path method (built.operations.map Prod.fst)
  if errors ≠ [] then
    -- the memo is kept: only the components and examples of the variants go back
    return (.failure path method errors,
      { run with registry := registry.restore run.registry.snapshot })
  else
    let targets := firstOfEachVariant built.operations
    let run := targets.foldl (fun run p => run.commit unit path p.1 p.2) { run with registry }
    return (.success path method ("generated for " ++ toString targets.length ++ " documents"), run)

def processUnit (plan : Plan) (run : Run) (unit : Element) : Option (Outcome × Run) :=
  match Endpoint.path unit with
  | .error e => some (.failure none none [e], run)
  | .ok path =>
    match Endpoint.method unit path with
    | .error e => some (.failure path none [e], run)
    | .ok method => addUnit plan run unit path method

def processUnits (plan : Plan) : List Element → Run → Option (List Outcome × Run)
  | [], run => some ([], run)
  | unit :: rest, run => do
    let (outcome, run) ← processUnit plan run unit
    let (outcomes, run) ← processUnits plan rest run
    return (outcome :: outcomes, run)

/-! ### Finishing the documents -/

/-- Give a document its components and run the document filters on it. -/
def finishDocument (plan : Plan) (run : Run) (variant : Variant) (d : Document) :
    Document × List GenerationError :=
  DocumentFilter.applyAll plan.filters.document plan.settings variant
    ((run.committed.get? variant).getD [])
    { d with components := run.registry.flush variant d.components }

def finishDocuments (plan : Plan) (run : Run) : Documents × List GenerationError :=
  let finished := run.documents.mapValues fun variant d => finishDocument plan run variant d
  let errors := finished.values.flatMap Prod.snd
  let documents := finished.mapValues fun _ p => p.1
  match plan.documentConfig with
  | none => (documents, errors)
  | some config =>
    let (documents, found) := DocumentConfigFilter.applyAll plan.filters.documentConfig
      plan.settings config documents
    (documents, errors ++ found)

def noOperationsMessage : String := "no operations found"

/-- Run a plan on an annotation tree. -/
def Plan.generate (plan : Plan) (annotations : Element) : Option GenerationResult :=
  match annotations.operations with
  | [] => some ⟨[.success none none noOperationsMessage], ∅, {}⟩
  | units => do
    let (outcomes, run) ← processUnits plan units {}
    match finishDocuments plan run with
    | (documents, []) => return ⟨outcomes, documents, run.registry⟩
    -- one outcome in place of those of all units
    | (_, errors) => return ⟨[.failure none none [.documentStage errors]], ∅, run.registry⟩

/-! ### As JSON -/

def OutcomeStatus.name : OutcomeStatus → String
  | .success => "Success"
  | .failure => "Failure"

def Outcome.toJson (o : Outcome) : Json :=
  .object ([("method", ((o.method.map fun m => Json.string m.name)).getD .null),
      ("path", (o.path.map Json.string).getD .null), ("status", .string o.status.name),
      ("message", .string o.message)] ++
    Json.optional "errorKind" o.errorKind fun k => .string k.name)

def GenerationResult.toJson (r : GenerationResult) : Json :=
  .object [("perPath", .array (r.outcomes.map Outcome.toJson)), ("documents", r.documents.toJson)]

end EndpointDocs
