import EndpointDocs.Proofs.Comparison
import EndpointDocs.Proofs.Operation.References
import EndpointDocs.Proofs.Tags.Reading

/-!
# The filters on two registries

The filters of operations look at the registry through `resolve` and `injectSample` only, so they do
the same on two registries that are compared (`Comparison.Agrees`). A step of a chain keeps what is
known of its target (`Comparison.Steps`): of an operation, its id and method and that it refers to
components that the variant has (`Sketch`). This carries over from the single tags to the filters,
to lists of filters, and to the annotations of the configuration.
-/

namespace EndpointDocs

open Registry Resolving

/-- The same scope with another depth. -/
def Scope.withDepth (scope : Scope) (depth : Nat) : Scope := { scope with depth := depth }

namespace Comparison

variable {scope : Scope} {C : Comparison scope.resolver}

/-! ## The types of a tag

The references of a schema are kept apart from the answer: an answer that is an error has none, and
then the chain goes on with what it had. -/

/-- The schemas of an answer refer to components that the variant has. -/
def AnswerRefersTo (v : Variant) (answer : Except ResolutionError (Option Schema)) (r : Registry) :
    Prop :=
  ∀ known, answer = .ok known → ∀ s ∈ known, s.RefersTo (r.has v)

/-- A text that is no type is an error in both runs. -/
theorem Agrees.schemaOfText (source : String) :
    C.Agrees (fun _ => True) (fun d => Tags.schemaOfText (scope.withDepth d) source)
      fun answer r => ∀ s, answer = .ok s → s.RefersTo (r.has scope.variant) := by
  unfold Tags.schemaOfText
  cases ht : Source.typeExpr? source with
  | none =>
    refine .pure fun r _ => ?_
    rintro s ⟨⟩
  | some t => exact .resolve ht scope.variant

/-- The induction is on the type expressions; the schema so far keeps referring to components. -/
theorem Agrees.widenByTexts (texts : List String) (known : Option Schema) :
    C.Agrees (fun r => ∀ s ∈ known, s.RefersTo (r.has scope.variant))
      (fun d => Tags.widenByTexts (scope.withDepth d) texts known)
      (AnswerRefersTo scope.variant) := by
  induction texts generalizing known with
  | nil =>
    refine .pure fun r hknown => ?_
    rintro _ ⟨⟩
    exact hknown
  | cons source rest ih =>
    -- what is known stays a schema of components that are there
    have hkeep : ∀ r s : Registry, Extends r s →
        (∀ k ∈ known, k.RefersTo (r.has scope.variant)) →
        ∀ k ∈ known, k.RefersTo (s.has scope.variant) :=
      fun r s hext hknown k hk => (hknown k hk).mono fun _ => hext.has
    refine .bind ((Agrees.schemaOfText source).alongside hkeep) fun answer => ?_
    cases answer with
    | error e =>
      refine .pure fun r _ => ?_
      rintro _ ⟨⟩
    | ok s =>
      refine (ih _).weaken fun r h => ?_
      obtain ⟨hs, hknown⟩ := h
      rintro _ ⟨⟩
      cases known with
      | none => exact hs s rfl
      | some k => exact (hknown k rfl).widen (hs s rfl)

/-- A tag begins without a schema, so nothing is asked of the registry. -/
theorem Agrees.schemaOf (tag : Element) :
    C.Agrees (fun _ => True) (fun d => Tags.schemaOf (scope.withDepth d) tag)
      (AnswerRefersTo scope.variant) :=
  (Agrees.widenByTexts _ none).weaken fun _ _ _ hs => nomatch hs

/-! ## Media

An example of a tag goes to the component that the schema refers to. That the variant has it is what
the tag has just seen to; it is the precondition of `Agrees.inject`. -/

/-- An example is set for a component that both variants have, so both runs find it. -/
theorem Agrees.showExample (v : Variant) (s : Schema) (value : Json) :
    C.Agrees (fun r => s.RefersTo (r.has v)) (fun _ => Tags.showExample v s value)
      fun shown r => shown.RefersTo (r.has v) := by
  have hkeep : ∀ r q : Registry, Extends r q → s.RefersTo (r.has v) → s.RefersTo (q.has v) :=
    fun r q hext hs => hs.mono fun _ => hext.has
  have hset : C.Agrees (fun r => s.RefersTo (r.has v))
      (fun _ => Tags.setComponentExample v s value) fun _ _ => True := by
    unfold Tags.setComponentExample
    cases hkey : s.refKey? with
    | none => exact .pure fun _ _ => trivial
    | some key => exact (Agrees.inject value).weaken fun r hs => hs.refKey? hkey
  refine .bind ((hset.frame _ hkeep).weaken fun r hs => ⟨hs, hs⟩) fun found => ?_
  cases found with
  | true => exact .pure fun r hs => hs.2
  | false => exact .pure fun r hs => hs.2.with_sample _

/-- Only the first example is shown by the schema, the others are in the media alone. -/
theorem Agrees.mediaOfSchema (v : Variant) (tag : Element) (s : Schema) :
    C.Agrees (fun r => s.RefersTo (r.has v)) (fun _ => Tags.mediaOfSchema v tag s)
      fun media r => media.schema.RefersTo (r.has v) := by
  have hmedia : ∀ shown : Schema, C.Agrees (fun r => shown.RefersTo (r.has v))
      (fun _ => (Pure.pure ⟨shown, Tags.firstOfEachKey (Tags.examplesOf tag)⟩ :
        Resolving MediaType))
      fun media r => media.schema.RefersTo (r.has v) := fun shown => .pure fun r hs => hs
  cases hfirst : (Tags.examplesOf tag).head? with
  | none =>
    simp only [Tags.mediaOfSchema, hfirst, pure_bind]
    exact hmedia s
  | some first =>
    simp only [Tags.mediaOfSchema, hfirst]
    exact .bind (.showExample v s first.2.value) hmedia

/-- The media of an answer refer to components that the variant has. -/
def MediaRefersTo (v : Variant) (answer : Except ResolutionError (Option MediaType))
    (r : Registry) : Prop :=
  ∀ known, answer = .ok known → ∀ media ∈ known, media.schema.RefersTo (r.has v)

/-- What is known of the answer says that the variant has the component of the example. -/
theorem Agrees.mediaOf (tag : Element) :
    C.Agrees (fun _ => True) (fun d => Tags.mediaOf (scope.withDepth d) tag)
      (MediaRefersTo scope.variant) := by
  refine .bind (.schemaOf tag) fun answer => ?_
  rcases answer with e | (- | s)
  · refine .pure fun r _ => ?_
    rintro _ ⟨⟩
  · refine .pure fun r _ => ?_
    rintro _ ⟨⟩ media hm
    cases hm
  · refine .bind ((Agrees.mediaOfSchema scope.variant tag s).weaken fun r h => h _ rfl s rfl)
      fun media => .pure fun r hm => ?_
    rintro _ ⟨⟩ _ ⟨⟩
    exact hm

/-! ## Steps

The property of a step is one of its target, which may be an operation or a path. So the rules for
chains are proved once, and each filter has to be looked at only by itself. -/

/-- The step agrees on the two registries, and keeps what `inv` says of its target. -/
def Steps {α : Type} (C : Comparison scope.resolver) (inv : α → Registry → Prop)
    (step : Nat → Step α) : Prop :=
  ∀ a, C.Agrees (inv a) (fun d => step d a) fun result r => inv result.1 r

namespace Steps

variable {α : Type} {inv : α → Registry → Prop}

/-- A step that does not look at the registry. -/
theorem pure {change : α → α} (h : ∀ a r, inv a r → inv (change a) r) :
    C.Steps inv fun _ => .pure change :=
  fun a => .pure (h a)

/-- Behind a fatal error the second step is left out, in both runs. -/
theorem andThen {first second : Nat → Step α} (h : C.Steps inv first) (h' : C.Steps inv second) :
    C.Steps inv fun d => (first d).andThen (second d) := by
  intro a
  refine .bind (h a) fun found => ?_
  obtain ⟨b, errors⟩ := found
  cases hf : Step.anyFatal errors with
  | true =>
    simp only [hf, if_true]
    exact .pure fun r hb => hb
  | false =>
    simp only [hf, Bool.false_eq_true, if_false]
    exact .bind (h' b) fun more => .pure fun r hb => hb

/-- The induction is on the list of steps. -/
theorem chain {ι : Type} {items : List ι} {step : ι → Nat → Step α}
    (h : ∀ i ∈ items, C.Steps inv (step i)) :
    C.Steps inv fun d => .chain (items.map fun i => step i d) := by
  induction items with
  | nil => exact fun a => .pure fun r ha => ha
  | cons i rest ih =>
    exact (h i List.mem_cons_self).andThen (ih fun j hj => h j (List.mem_cons_of_mem _ hj))

end Steps

/-! ## Filters of operations

A filter is met with the same unit and the same operation in both runs. Of the operation before it
the sketch is all that the filters need. -/

/-- What the filters keep of an operation: it is the one they began with, and it refers to
components that the variant has. -/
structure Sketch (v : Variant) (first op : Operation) (r : Registry) : Prop where
  same : op.SameEndpoint first
  refersTo : op.RefersTo (r.has v)

/-- More components do no harm. -/
theorem Sketch.extends {v : Variant} {first op : Operation} {r s : Registry} (hext : Extends r s)
    (h : Sketch v first op r) : Sketch v first op s :=
  ⟨h.same, h.refersTo.mono fun _ => hext.has⟩

/-- Every filter of the list keeps the sketch of an operation. -/
def OperationFilters (scope : Scope) (C : Comparison scope.resolver)
    (filters : List OperationFilter) : Prop :=
  ∀ f ∈ filters, ∀ unit first,
    C.Steps (Sketch scope.variant first) fun d => f.apply (scope.withDepth d) unit

variable {first : Operation}

theorem OperationFilters.applyAll {filters : List OperationFilter}
    (h : OperationFilters scope C filters) (unit : Element) (first : Operation) :
    C.Steps (Sketch scope.variant first)
      fun d => OperationFilter.applyAll filters (scope.withDepth d) unit :=
  Steps.chain fun f hf => h f hf unit first

/-- A known parameter is left alone before its types are looked at; a new one brings its schema. -/
theorem Steps.addParameter (param : Element) :
    C.Steps (Sketch scope.variant first) fun d => Tags.addParameter (scope.withDepth d) param := by
  intro op
  have hpath : ∀ d, (scope.withDepth d).path = scope.path := fun _ => rfl
  unfold Tags.addParameter
  simp only [hpath]
  cases Tags.locationOf scope.path param with
  | error fault => exact .pure fun r h => h
  | ok location =>
    by_cases hknown : op.hasParameter (Tags.nameOf param) location = true
    · simp only [hknown, if_true]
      exact .pure fun r h => h
    · simp only [hknown, Bool.false_eq_true, if_false]
      -- the schema comes from a longer registry, into which the operation is carried along
      refine .bind ((Agrees.schemaOf param).alongside fun _ _ => Sketch.extends)
        fun answer => ?_
      cases answer with
      | error e => exact .pure fun r h => h.2
      | ok schema =>
        refine .pure fun r h => ⟨?_, h.2.refersTo.addParameter ?_⟩
        · exact (Operation.sameEndpoint_addParameter op _).trans h.2.same
        · cases schema with
          | none => exact fun ref hr => nomatch hr
          | some s => exact h.1 _ rfl s rfl

/-- The media are added to those of the body so far, if there is one. -/
theorem Steps.addBody (param : Element) :
    C.Steps (Sketch scope.variant first) fun d => Tags.addBody (scope.withDepth d) param := by
  intro op
  refine .bind ((Agrees.mediaOf param).alongside fun _ _ => Sketch.extends) fun answer => ?_
  rcases answer with e | (- | media)
  · exact .pure fun r h => h.2
  · exact .pure fun r h => h.2
  · refine .pure fun r h => ⟨h.2.same, h.2.refersTo.parameters, ?_, h.2.refersTo.responses⟩
    rintro _ ⟨⟩
    refine ContentRefersTo.addMedia ?_ (h.1 _ rfl media rfl) _
    cases hbody : op.requestBody with
    | none => exact .empty
    | some body => exact h.2.refersTo.requestBody body hbody

/-- A status code that is none is an error before the types are looked at. -/
theorem Steps.addResponse (tag : Element) :
    C.Steps (Sketch scope.variant first) fun d => Tags.addResponse (scope.withDepth d) tag := by
  intro op
  unfold Tags.addResponse
  by_cases hcode : Tags.isStatusCode (Tags.statusCodeOf tag) = true
  · simp only [hcode, if_true]
    refine .bind ((Agrees.mediaOf tag).alongside fun _ _ => Sketch.extends) fun answer => ?_
    cases answer with
    | error e => exact .pure fun r h => h.2
    | ok media =>
      refine .pure fun r h => ⟨h.2.same, h.2.refersTo.alterResponse ?_⟩
      -- the response that was there, or an empty one
      have hknown : ContentRefersTo (r.has scope.variant)
          ((op.responses.get? (Tags.statusCodeOf tag)).getD {}).content := by
        cases hk : op.responses.get? (Tags.statusCodeOf tag) with
        | none => exact .empty
        | some known => exact h.2.refersTo.responses _ known hk
      cases media with
      | none => exact hknown
      | some media => exact hknown.addMedia (h.1 _ rfl media rfl) _
  · simp only [hcode, Bool.false_eq_true, if_false]
    exact .pure fun r h => h

/-- A change of the texts of an operation. -/
theorem Steps.texts {change : Operation → Operation}
    (h : ∀ op, change op = { op with
      summary := (change op).summary, description := (change op).description,
      tags := (change op).tags }) :
    C.Steps (Sketch scope.variant first) fun _ => .pure change := by
  refine .pure fun op r hsketch => ?_
  rw [h op]
  exact ⟨hsketch.same, hsketch.refersTo.parameters, hsketch.refersTo.requestBody,
    hsketch.refersTo.responses⟩

/-- The filters of a run that names none. -/
theorem operationFilters_standard (scope : Scope) (C : Comparison scope.resolver) :
    OperationFilters scope C FilterSet.standard.operation := by
  intro f hf unit first
  simp only [FilterSet.standard, List.mem_cons, List.not_mem_nil, or_false] at hf
  rcases hf with rfl | rfl | rfl | rfl | rfl | rfl
  · exact .texts fun _ => rfl
  · exact .texts fun _ => rfl
  · refine .texts fun op => ?_
    rw [Tags.addTags, Tags.foldl_addTag]
  · exact .chain fun param _ => .addParameter param
  · exact .chain fun param _ => .addBody param
  · exact .chain fun tag _ => .addResponse tag

/-! ## Filters of the configuration

The operation of the configuration is made with the same filters, so what is known of these is a
hypothesis here. It may be about any list of them. -/

/-- Each operation of a path is a sketch of the one of its method and the given id. -/
def PathSketch (v : Variant) (opId : String) (item : PathItem) (r : Registry) : Prop :=
  ∀ method op, item.get? method = some op → Sketch v { id := opId, method := method } op r

/-- Every filter of the list keeps the sketches of a path. -/
def OperationConfigFilters (scope : Scope) (C : Comparison scope.resolver)
    (operationFilters : List OperationFilter) (filters : List OperationConfigFilter) : Prop :=
  ∀ f ∈ filters, ∀ config opId,
    C.Steps (PathSketch scope.variant opId)
      fun d => f.apply (scope.withDepth d) operationFilters config

theorem OperationConfigFilters.applyAll {operationFilters : List OperationFilter}
    {filters : List OperationConfigFilter}
    (h : OperationConfigFilters scope C operationFilters filters) (config : Element)
    (opId : String) :
    C.Steps (PathSketch scope.variant opId)
      fun d => OperationConfigFilter.applyAll filters (scope.withDepth d) operationFilters config :=
  Steps.chain fun f hf => h f hf config opId

/-- The annotations of the configuration become an operation of their own, which fills the other. -/
theorem Steps.fillOperation {filters : List OperationFilter} (h : OperationFilters scope C filters)
    (annotations : Element) (method : Method) (opId : String) :
    C.Steps (PathSketch scope.variant opId)
      fun d => Tags.fillOperation (scope.withDepth d) filters annotations method := by
  intro item
  cases hop : item.get? method with
  | none =>
    simp only [Tags.fillOperation, hop]
    exact .pure fun r hitem => hitem
  | some op =>
    simp only [Tags.fillOperation, hop]
    have hkeep : ∀ r s : Registry, Extends r s → PathSketch scope.variant opId item r →
        PathSketch scope.variant opId item s :=
      fun r s hext hitem m op hm => (hitem m op hm).extends hext
    have hnew : ∀ r : Registry, Sketch scope.variant { id := op.id, method := method }
        { id := op.id, method := method } r := fun r => ⟨⟨rfl, rfl⟩, .new _ _⟩
    -- the defaults are built beside the item, which keeps what is known of it meanwhile
    refine .bind (((h.applyAll annotations { id := op.id, method := method } _).frame
      _ hkeep).weaken fun r hitem => ⟨hnew r, hitem⟩) fun found => ?_
    obtain ⟨defaults, errors⟩ := found
    cases Step.anyFatal errors with
    | true =>
      simp only [if_true]
      exact .pure fun r hitem => hitem.2
    | false =>
      simp only [Bool.false_eq_true, if_false]
      refine .pure fun r hitem => ?_
      obtain ⟨hdefaults, hitem⟩ := hitem
      intro m op' hm
      rw [KeyMap.get?_insert] at hm
      split at hm
      · next hmethod =>
        cases hm
        have hsketch := hitem method op hop
        exact hmethod ▸ ⟨(Operation.sameEndpoint_fillUnsetFrom op defaults).trans hsketch.same,
          hsketch.refersTo.fillUnsetFrom hdefaults.refersTo⟩
      · exact hitem m op' hm

/-- Without annotations for the variant the path is left as it is. -/
theorem operationConfigFilters_standard {filters : List OperationFilter}
    (h : OperationFilters scope C filters) :
    OperationConfigFilters scope C filters FilterSet.standard.operationConfig := by
  intro f hf config opId
  rw [List.mem_singleton.1 hf]
  intro item
  show C.Agrees _ (fun d => if (Tags.annotationsFor config scope.variant).children.isEmpty
    then (Pure.pure (item, []) : Resolving _)
    else Step.chain (item.keys.map (Tags.fillOperation (scope.withDepth d) filters
      (Tags.annotationsFor config scope.variant))) item) _
  by_cases hempty : (Tags.annotationsFor config scope.variant).children.isEmpty = true
  · simp only [hempty, if_true]
    exact .pure fun r hitem => hitem
  · simp only [hempty, Bool.false_eq_true, if_false]
    exact Steps.chain (fun method _ => Steps.fillOperation h _ method opId) item

end Comparison

end EndpointDocs
