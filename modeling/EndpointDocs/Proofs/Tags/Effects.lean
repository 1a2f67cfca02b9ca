import EndpointDocs.Proofs.Generation.Building
import EndpointDocs.Proofs.Registry.Effects

/-!
# What building an operation leaves alone

The filters of operations resolve types, and they set the first example of a tag for the component
that the tag refers to (`Tags.Exemplifies`). Nothing else in them reaches the registry, so building
an operation has every effect that admits the examples of the tags it reads: those of the unit, and
those of the configuration (`Effect.Of.buildOperation`).
-/

namespace EndpointDocs

open Registry Resolving

/-! ## Steps

An effect is what a computation may do to the registry, and it composes. So the two ways of putting
steps together have it as soon as the steps have it. -/

namespace Registry.Effect.Of

variable {resolver : Resolver} {v : Variant} {E : Effect resolver v} {α : Type}

/-- Whether the second step is left out or not, nothing else happens. -/
theorem andThen {first second : Step α} (h : ∀ a, E.Of (first a)) (h' : ∀ a, E.Of (second a))
    (a : α) : E.Of (first.andThen second a) := by
  refine .bind (h a) fun found _ => ?_
  obtain ⟨b, errors⟩ := found
  cases hf : Step.anyFatal errors with
  | true =>
    simp only [hf, if_true]
    exact .pure _
  | false =>
    simp only [hf, Bool.false_eq_true, if_false]
    exact .bind (h' b) fun _ _ => .pure _

/-- The induction is on the list of steps. -/
theorem chain {ι : Type} {items : List ι} {step : ι → Step α}
    (h : ∀ i ∈ items, ∀ a, E.Of (step i a)) (a : α) :
    E.Of (Step.chain (items.map step) a) := by
  induction items generalizing a with
  | nil => exact .pure _
  | cons i rest ih =>
    exact .andThen (h i List.mem_cons_self) (ih fun j hj => h j (List.mem_cons_of_mem _ hj)) a

end Registry.Effect.Of

/-! ## Examples of tags

Which examples reach the registry cannot be told from a tag alone: it depends on whether its schema
refers to a component, and so on what its types resolve to. `Exemplifies` says this with a run of
`schemaOf`, on any registry, since what it answers does not depend on the registry. -/

namespace Tags

/-- The tags of a unit that describe contents of bodies. -/
def bodyTags (unit : Element) : List Element :=
  (unit.childrenNamed "param").filter isAboutBody ++ unit.childrenNamed "response"

/-- The tag refers to the component of the key, and its first example is the given one. -/
def Exemplifies (scope : Scope) (tag : Element) (key : String) (sample : Json) : Prop :=
  (∃ r schema s, (schemaOf scope tag).run r = some (.ok (some schema), s) ∧
    schema.refKey? = some key) ∧
    ((examplesOf tag).head?.map fun p => p.2.value) = some sample

end Tags

namespace Registry.Effect

variable {scope : Scope} {E : Effect scope.resolver scope.variant}

/-- The effect admits the examples of the tag. -/
def AdmitsTag (scope : Scope) (E : Effect scope.resolver scope.variant) (tag : Element) : Prop :=
  ∀ key sample, Tags.Exemplifies scope tag key sample → E.admits key sample

/-- The effect admits the examples of all tags of a unit. -/
def AdmitsUnit (scope : Scope) (E : Effect scope.resolver scope.variant) (unit : Element) : Prop :=
  ∀ tag ∈ Tags.bodyTags unit, E.AdmitsTag scope tag

namespace Of

/-! ## Tags

Reading the schema of a tag has every effect there is. Only its media set an example. -/

/-- A text that is no type does nothing. -/
theorem schemaOfText (source : String) : E.Of (Tags.schemaOfText scope source) := by
  unfold Tags.schemaOfText
  cases Source.typeExpr? source with
  | none => exact .pure _
  | some t => exact .resolve scope.depth t

/-- The induction is on the type expressions. -/
theorem widenByTexts (texts : List String) (known : Option Schema) :
    E.Of (Tags.widenByTexts scope texts known) := by
  induction texts generalizing known with
  | nil => exact .pure _
  | cons source rest ih =>
    refine .bind (.schemaOfText source) fun answer _ => ?_
    cases answer with
    | error e => exact .pure _
    | ok s => exact ih _

theorem schemaOf (tag : Element) : E.Of (Tags.schemaOf scope tag) := .widenByTexts _ none

/-- A schema that refers to a component shows the example there. -/
theorem showExample {schema : Schema} {sample : Json}
    (h : ∀ key, schema.refKey? = some key → E.admits key sample) :
    E.Of (Tags.showExample scope.variant schema sample) := by
  have hset : E.Of (Tags.setComponentExample scope.variant schema sample) := by
    unfold Tags.setComponentExample
    cases hkey : schema.refKey? with
    | none => exact .pure _
    | some key => exact .inject (h key hkey)
  refine .bind hset fun found _ => ?_
  cases found with
  | true => exact .pure _
  | false => exact .pure _

/-- Only the first example is set, and for the component of the schema. -/
theorem mediaOf {tag : Element} (h : E.AdmitsTag scope tag) : E.Of (Tags.mediaOf scope tag) := by
  refine .bind (.schemaOf tag) fun answer hanswer => ?_
  rcases answer with e | (- | schema)
  · exact .pure _
  · exact .pure _
  · refine .bind ?_ fun media _ => .pure _
    -- an example is shown only if the tag has one, and then the first
    cases hfirst : (Tags.examplesOf tag).head? with
    | none =>
      simp only [Tags.mediaOfSchema, hfirst]
      exact .bind (.pure _) fun _ _ => .pure _
    | some first =>
      simp only [Tags.mediaOfSchema, hfirst]
      obtain ⟨r, s, hrun⟩ := hanswer
      refine .bind (.showExample fun key hkey => h key _ ⟨⟨r, schema, s, hrun, hkey⟩, ?_⟩)
        fun _ _ => .pure _
      rw [hfirst, Option.map_some]

/-! ## Filters of operations

The filters that only set texts do nothing to the registry, and neither do parameters set examples.
-/

/-- A parameter resolves its types. -/
theorem addParameter (param : Element) (op : Operation) :
    E.Of (Tags.addParameter scope param op) := by
  unfold Tags.addParameter
  cases Tags.locationOf scope.path param with
  | error fault => exact .pure _
  | ok location =>
    by_cases hknown : op.hasParameter (Tags.nameOf param) location = true
    · simp only [hknown, if_true]
      exact .pure _
    · simp only [hknown, Bool.false_eq_true, if_false]
      refine .bind (.schemaOf param) fun answer _ => ?_
      cases answer with
      | error e => exact .pure _
      | ok schema => exact .pure _

/-- The media of the tag are all that a body asks for. -/
theorem addBody {param : Element} (h : E.AdmitsTag scope param) (op : Operation) :
    E.Of (Tags.addBody scope param op) := by
  refine .bind (.mediaOf h) fun answer _ => ?_
  rcases answer with e | (- | media)
  · exact .pure _
  · exact .pure _
  · exact .pure _

/-- Likewise a response. -/
theorem addResponse {tag : Element} (h : E.AdmitsTag scope tag) (op : Operation) :
    E.Of (Tags.addResponse scope tag op) := by
  unfold Tags.addResponse
  by_cases hcode : Tags.isStatusCode (Tags.statusCodeOf tag) = true
  · simp only [hcode, if_true]
    refine .bind (.mediaOf h) fun answer _ => ?_
    cases answer with
    | error e => exact .pure _
    | ok media => exact .pure _
  · simp only [hcode, Bool.false_eq_true, if_false]
    exact .pure _

variable (scope)

/-- The tags that describe bodies are those that the last two filters go through. -/
theorem standardFilter {f : OperationFilter} (hf : f ∈ FilterSet.standard.operation)
    {unit : Element} (h : E.AdmitsUnit scope unit) (op : Operation) :
    E.Of (f.apply scope unit op) := by
  simp only [FilterSet.standard, List.mem_cons, List.not_mem_nil, or_false] at hf
  rcases hf with rfl | rfl | rfl | rfl | rfl | rfl
  · exact .pure _
  · exact .pure _
  · exact .pure _
  · exact .chain (fun param _ => .addParameter param) op
  · exact .chain (fun param hp => .addBody (h param (List.mem_append_left _ hp))) op
  · exact .chain (fun tag ht => .addResponse (h tag (List.mem_append_right _ ht))) op

/-- The defaults are made with the same filters, from the annotations. -/
theorem fillOperation {filters : List OperationFilter} {annotations : Element}
    (h : ∀ f ∈ filters, ∀ op, E.Of (f.apply scope annotations op)) (method : Method)
    (item : PathItem) : E.Of (Tags.fillOperation scope filters annotations method item) := by
  unfold Tags.fillOperation
  cases item.get? method with
  | none => exact .pure _
  | some op =>
    refine .bind (.chain h _) fun found _ => ?_
    obtain ⟨defaults, errors⟩ := found
    dsimp only
    split
    · exact .pure _
    · exact .pure _

/-- Each operation of the path is filled on its own. -/
theorem commonAnnotations {filters : List OperationFilter} {config : Element}
    (h : ∀ f ∈ filters, ∀ op,
      E.Of (f.apply scope (Tags.annotationsFor config scope.variant) op)) (item : PathItem) :
    E.Of (Tags.commonAnnotationFilter.apply scope filters config item) := by
  show E.Of (if (Tags.annotationsFor config scope.variant).children.isEmpty then _ else _)
  split
  · exact .pure _
  · exact .chain (fun method _ => .fillOperation scope h method) item

end Of

end Registry.Effect

/-! ## Operations

For a list of filters that is not the standard one, the effect has to be shown for each of them; for
the standard one it follows from the examples of the tags. -/

/-- The scope in which a plan builds operations. -/
def Plan.scope (plan : Plan) (path : String) (v : Variant) : Scope :=
  ⟨plan.resolver, plan.depth, v, path⟩

namespace Registry.Effect.Of

variable {plan : Plan} {unit : Element} {path : String} {method : Method} {v : Variant}
variable {E : Effect plan.resolver v}

/-- What is read of the configuration is what its filters do. -/
theorem configureOperation_of_filters {config : Element}
    (h : ∀ f ∈ plan.filters.operationConfig, ∀ item,
      E.Of (f.apply (plan.scope path v) plan.filters.operation config item)) (op : Operation) :
    E.Of (EndpointDocs.configureOperation plan (plan.scope path v) config op) := by
  refine .bind (.chain h _) fun found _ => ?_
  obtain ⟨item, errors⟩ := found
  dsimp only
  split
  · exact .pure _
  · cases item.get? op.method with
    | none => exact .pure _
    | some op' => exact .pure _

/-- Building an operation does what the filters do. -/
theorem buildOperation_of_filters
    (hunit : ∀ f ∈ plan.filters.operation, ∀ op, E.Of (f.apply (plan.scope path v) unit op))
    (hconfig : ∀ config ∈ plan.operationConfig, ∀ f ∈ plan.filters.operationConfig, ∀ item,
      E.Of (f.apply (plan.scope path v) plan.filters.operation config item)) :
    E.Of (EndpointDocs.buildOperation plan unit path method v) := by
  refine .bind (.chain hunit _) fun found _ => ?_
  obtain ⟨op, errors⟩ := found
  dsimp only
  split
  · exact .pure _
  · cases hc : plan.operationConfig with
    | none => exact .pure _
    | some config => exact .configureOperation_of_filters (hconfig config hc) op

variable (hfilters : plan.filters = FilterSet.standard)

include hfilters

/-- The only filter of the configuration reads its annotations for the variant. -/
theorem standardConfigFilter {config : Element}
    (h : E.AdmitsUnit (plan.scope path v) (Tags.annotationsFor config v)) :
    ∀ f ∈ plan.filters.operationConfig, ∀ item,
      E.Of (f.apply (plan.scope path v) plan.filters.operation config item) := by
  rw [hfilters]
  intro f hf item
  rw [List.mem_singleton.1 hf]
  exact .commonAnnotations (plan.scope path v)
    (fun f hf => .standardFilter (plan.scope path v) hf h) item

/-- With the standard filters the annotations are what counts. -/
theorem configureOperation {config : Element}
    (h : E.AdmitsUnit (plan.scope path v) (Tags.annotationsFor config v)) (op : Operation) :
    E.Of (EndpointDocs.configureOperation plan (plan.scope path v) config op) :=
  .configureOperation_of_filters (.standardConfigFilter hfilters h) op

/-- Building an operation sets the examples of the unit and of the configuration. -/
theorem buildOperation (hunit : E.AdmitsUnit (plan.scope path v) unit)
    (hconfig : ∀ config ∈ plan.operationConfig,
      E.AdmitsUnit (plan.scope path v) (Tags.annotationsFor config v)) :
    E.Of (EndpointDocs.buildOperation plan unit path method v) := by
  refine .buildOperation_of_filters ?_ fun config hc =>
    .standardConfigFilter hfilters (hconfig config hc)
  rw [hfilters]
  exact fun f hf => .standardFilter (plan.scope path v) hf hunit

end Registry.Effect.Of

end EndpointDocs
