import EndpointDocs.Proofs.Generation.Returning
import EndpointDocs.Proofs.Operation.Filling
import EndpointDocs.Proofs.Tags.Effects

/-!
# The configuration of operations

The annotations of a configuration are read behind those of a unit, into an operation of their own
that fills what the unit leaves unset. So the operation keeps all that the unit documents. But
reading a tag also sets the example of the component that it refers to, whether the content of the
tag is used or not: the components of the variant are kept but for the examples of the configuration
(`documentation_kept`), and an example that the unit documents is lost to one of the configuration
for the same component (`example_replaced`).
-/

namespace EndpointDocs

open Registry Resolving

/-- What relates the targets of single steps relates the first and the last one of a chain. The
induction is on the list of steps, and errors may end the chain at any of them. -/
theorem Resolving.Answers.chain {α ι : Type} {items : List ι} {step : ι → Step α}
    {R : α → α → Prop} (hrefl : ∀ a, R a a) (htrans : ∀ {a b c}, R a b → R b c → R a c)
    (h : ∀ i ∈ items, ∀ a, Answers (step i a) fun found => R a found.1) (a : α) :
    Answers (Step.chain (items.map step) a) fun found => R a found.1 := by
  induction items generalizing a with
  | nil => exact .pure (hrefl a)
  | cons i rest ih =>
    refine .bind (h i List.mem_cons_self a) fun first hfirst => ?_
    have hrest := ih (fun j hj => h j (List.mem_cons_of_mem _ hj)) first.1
    dsimp only
    split
    · exact .pure hfirst
    · exact .bind hrest fun last hlast => .pure (htrans hfirst hlast)

/-! ## What the configuration keeps

The configuration reaches an operation through three layers: the list of filters, the methods of a
path item, and the filling of one operation. A relation that filling respects is carried through all
of them, as long as it is reflexive, for what is left alone, and transitive, for what is done twice.
It is used for what is kept and, elsewhere, for what is used. -/

/-- Each operation of a path is related to one of the other path item. -/
def PathItem.Pointwise (R : Operation → Operation → Prop) (item other : PathItem) : Prop :=
  ∀ method op, item.get? method = some op → ∃ op', other.get? method = some op' ∧ R op op'

section Pointwise

variable {R : Operation → Operation → Prop}
variable (hrefl : ∀ op, R op op) (htrans : ∀ {op other last}, R op other → R other last → R op last)

include hrefl

theorem PathItem.Pointwise.refl (item : PathItem) : item.Pointwise R item :=
  fun _ op hop => ⟨op, hop, hrefl op⟩

theorem PathItem.pointwise_insert {item : PathItem} {method : Method} {op op' : Operation}
    (hop : item.get? method = some op) (h : R op op') :
    item.Pointwise R (item.insert method op') := by
  intro other known hknown
  rw [KeyMap.get?_insert]
  by_cases hmethod : other = method
  -- at the method itself the operation is the related one
  · rw [if_pos hmethod]
    cases (hmethod ▸ hknown).symm.trans hop
    exact ⟨op', rfl, h⟩
  · rw [if_neg hmethod]
    exact ⟨known, hknown, hrefl known⟩

omit hrefl in
include htrans in
theorem PathItem.Pointwise.trans {item other last : PathItem} (h : item.Pointwise R other)
    (h' : other.Pointwise R last) : item.Pointwise R last := by
  intro method op hop
  obtain ⟨op', hop', hfirst⟩ := h method op hop
  obtain ⟨op'', hop'', hsecond⟩ := h' method op' hop'
  exact ⟨op'', hop'', htrans hfirst hsecond⟩

/-- The annotations of the configuration only fill operations. An error leaves the path item as it
is. -/
theorem Tags.fillOperation_pointwise {scope : Scope} {filters : List OperationFilter}
    {annotations : Element}
    (hfill : ∀ op : Operation, ∀ method, Answers (OperationFilter.applyAll filters scope
      annotations { id := op.id, method }) fun found => R op (op.fillUnsetFrom found.1))
    (method : Method) (item : PathItem) :
    Answers (fillOperation scope filters annotations method item) fun found =>
      item.Pointwise R found.1 := by
  unfold fillOperation
  cases hop : item.get? method with
  | none => exact .pure (.refl hrefl item)
  | some op =>
    refine .bind (hfill op method) fun found hfound => ?_
    obtain ⟨defaults, errors⟩ := found
    dsimp only
    split
    · exact .pure (.refl hrefl item)
    · exact .pure (PathItem.pointwise_insert hrefl hop hfound)

include htrans

theorem Tags.commonAnnotationFilter_pointwise {scope : Scope} {filters : List OperationFilter}
    {config : Element}
    (hfill : ∀ op : Operation, ∀ method, Answers (OperationFilter.applyAll filters scope
      (annotationsFor config scope.variant) { id := op.id, method })
        fun found => R op (op.fillUnsetFrom found.1)) (item : PathItem) :
    Answers (commonAnnotationFilter.apply scope filters config item) fun found =>
      item.Pointwise R found.1 := by
  show Answers (if (annotationsFor config scope.variant).children.isEmpty then _ else _) _
  split
  · exact .pure (.refl hrefl item)
  · exact .chain (.refl hrefl) (.trans (R := R) htrans)
      (fun method _ => fillOperation_pointwise hrefl hfill method) item

/-- Configuring an operation does nothing but fill it. -/
theorem configureOperation_answers {plan : Plan} (hfilters : plan.filters = FilterSet.standard)
    {scope : Scope} {config : Element}
    (hfill : ∀ op : Operation, ∀ method, Answers (OperationFilter.applyAll
      FilterSet.standard.operation scope (Tags.annotationsFor config scope.variant)
        { id := op.id, method }) fun found => R op (op.fillUnsetFrom found.1)) (op : Operation) :
    Answers (configureOperation plan scope config op) fun result =>
      ∀ op', result = .ok op' → R op op' := by
  let start : PathItem := (∅ : PathItem).insert op.method op
  refine .bind (Q := fun found => start.Pointwise R found.1) ?_ fun found hfound => ?_
  · rw [hfilters]
    refine .chain (.refl hrefl) (.trans (R := R) htrans) (fun f hf => ?_) start
    rw [List.mem_singleton.1 hf]
    exact Tags.commonAnnotationFilter_pointwise hrefl htrans hfill
  · obtain ⟨item, errors⟩ := found
    have hstart : start.get? op.method = some op := by
      rw [KeyMap.get?_insert, if_pos rfl]
    -- the operation is configured as the only one of a path item, and is looked up in it again
    obtain ⟨op'', hop'', hrelated⟩ := hfound op.method op hstart
    dsimp only
    split
    · exact .pure fun op' h => nomatch h
    · rw [hop'']
      refine .pure fun op' h => ?_
      cases h
      exact hrelated

end Pointwise

/-! ### Configured operations

To compare what a unit documents with what becomes of it, the operation is built twice: without the
configuration and with it. Both runs start with the unit on the same registry, so up to there they
are the same run, but for the depth that each is allowed. -/

/-- The plan without annotations for all operations. -/
def Plan.unconfigured (plan : Plan) : Plan := { plan with operationConfig := none }

/-- A tag of the configuration gives the example for the component of the key. -/
def Plan.GivesExample (plan : Plan) (config : Element) (path : String) (v : Variant) (key : String)
    (sample : Json) : Prop :=
  ∃ tag ∈ Tags.bodyTags (Tags.annotationsFor config v),
    Tags.Exemplifies (plan.scope path v) tag key sample

section Configured

variable {plan : Plan} {unit config : Element} {path : String} {method : Method} {v : Variant}
variable {op op' : Operation} {r s s' : Registry}
variable (hfilters : plan.filters = FilterSet.standard)

include hfilters

/-- Whatever is read from the annotations of the configuration, the operation is kept. -/
theorem configureOperation_keeps (scope : Scope) (config : Element) (op : Operation) :
    Answers (configureOperation plan scope config op) fun result =>
      ∀ op', result = .ok op' → op.KeptIn op' := by
  refine configureOperation_answers .refl .trans hfilters (fun op method => ?_) op
  exact fun _ found _ _ => op.keptIn_fillUnsetFrom found.1

omit hfilters in
/-- Without a configuration the operation is what the filters make of the unit. -/
theorem buildOperation_of_applyAll (plan : Plan) (hnone : plan.operationConfig = none)
    (h : (OperationFilter.applyAll plan.filters.operation (plan.scope path v) unit
      (.new path method)).run r = some ((op, []), s)) :
    (buildOperation plan unit path method v).run r = some (.ok op, s) := by
  unfold buildOperation
  rw [hnone]
  exact (run_bind_of_run h).trans rfl

omit hfilters in
/-- The configuration comes after the unit. -/
theorem buildOperation_eq_bind (hconfig : plan.operationConfig = some config) :
    buildOperation plan unit path method v =
      (do
        match ← buildOperation plan.unconfigured unit path method v with
        | .error errors => return .error errors
        | .ok op => configureOperation plan (plan.scope path v) config op) := by
  unfold buildOperation
  rw [bind_assoc]
  refine bind_congr fun found => ?_
  obtain ⟨op, errors⟩ := found
  dsimp only
  split
  · rw [pure_bind]
  · rw [hconfig]
    exact (pure_bind _ _).symm

/-- The configuration keeps what a unit documents. The components of the variant are kept as well,
but for the examples that the tags of the configuration give. -/
theorem documentation_kept {depth : Nat} (hconfig : plan.operationConfig = some config)
    (hplain : (buildOperation (plan.unconfigured.withDepth depth) unit path method v).run r =
      some (.ok op, s))
    (hconfigured : (buildOperation plan unit path method v).run r = some (.ok op', s')) :
    op.KeptIn op' ∧ ∀ key known, (s.componentsOf v).get? key = some known →
      ∃ kept, (s'.componentsOf v).get? key = some kept ∧
        Effect.KeptWith (plan.GivesExample config path v) key known kept := by
  rw [buildOperation_eq_bind hconfig] at hconfigured
  obtain ⟨result, q, hunit, hrest⟩ := run_bind_eq_some.1 hconfigured
  -- what the unit gives does not depend on the depth
  have hstandard : plan.unconfigured.filters = FilterSet.standard := hfilters
  have hagrees := Comparison.Agrees.buildOperation (C := .self plan.unconfigured.resolver) hstandard
    unit path method v
  have hmore := hagrees.within (le_max_left depth plan.depth) _ _ hplain
  have hmore' := hagrees.within (le_max_right depth plan.depth) _ _ hunit
  rw [hmore] at hmore'
  cases hmore'
  refine ⟨configureOperation_keeps hfilters _ config op _ _ _ hrest op' rfl, ?_⟩
  -- of the components only their examples may change, and only by a tag of the configuration
  have heffect : (Effect.keeping plan.resolver v (plan.GivesExample config path v)).Of
      (configureOperation plan (plan.scope path v) config op) := by
    refine .configureOperation hfilters ?_ op
    exact fun tag ht key sample h => ⟨tag, ht, h⟩
  exact heffect s (.ok op') s' hrest

omit hfilters in
/-- An operation is filled from what the annotations of the configuration are read into. This
follows a run through the three layers from the inside out. -/
theorem configureOperation_of_run {scope : Scope} {defaults : Operation}
    (hstandard : plan.filters = FilterSet.standard)
    (hsome : (Tags.annotationsFor config scope.variant).children.isEmpty = false)
    (h : (OperationFilter.applyAll FilterSet.standard.operation scope
      (Tags.annotationsFor config scope.variant) { id := op.id, method := op.method }).run r =
        some ((defaults, []), s)) :
    (configureOperation plan scope config op).run r =
      some (.ok (op.fillUnsetFrom defaults), s) := by
  let start : PathItem := (∅ : PathItem).insert op.method op
  let filled : PathItem := start.insert op.method (op.fillUnsetFrom defaults)
  have hstart : start.get? op.method = some op := by
    rw [KeyMap.get?_insert, if_pos rfl]
  have hfilled : filled.get? op.method = some (op.fillUnsetFrom defaults) := by
    rw [KeyMap.get?_insert, if_pos rfl]
  -- the only filter that has something to do fills the operation
  have hfill : (Tags.fillOperation scope FilterSet.standard.operation
      (Tags.annotationsFor config scope.variant) op.method start).run r =
        some ((filled, []), s) := by
    unfold Tags.fillOperation
    rw [hstart]
    dsimp only
    rw [run_bind_of_run h]
    rfl
  have hall : (OperationConfigFilter.applyAll FilterSet.standard.operationConfig scope
      FilterSet.standard.operation config start).run r = some ((filled, []), s) := by
    refine Step.chain_cons_of_run (q := s) (b := filled) ?_ rfl
    -- the annotations are not empty, so their filters are put
    show StateT.run (if (Tags.annotationsFor config scope.variant).children.isEmpty then _ else
      Step.chain _ start) r = _
    rw [hsome, if_neg Bool.false_ne_true]
    exact Step.chain_cons_of_run hfill rfl
  unfold configureOperation
  rw [hstandard, run_bind_of_run hall]
  dsimp only
  rw [if_neg (fun h => h rfl), hfilled]
  rfl

end Configured

/-! ## An example that is replaced

A configuration whose response shows Bob, over a unit whose response of the same code shows Ada. The
response of the unit wins, but reading that of the configuration has set the example of the
component both refer to. -/

/-- An example of a reference is set on the component, whether it is there or not. -/
theorem Tags.showExample_of_refKey {schema : Schema} {key : String}
    (hkey : schema.refKey? = some key) (v : Variant) (sample : Json) (r : Registry) :
    ∃ shown, (showExample v schema sample).run r =
      some (shown, (r.injectSample key v sample).2) := by
  have hset : (setComponentExample v schema sample).run r =
      some ((r.injectSample key v sample).1, (r.injectSample key v sample).2) := by
    unfold setComponentExample
    rw [hkey]
    rfl
  unfold showExample
  rw [run_bind_of_run hset]
  split <;> exact ⟨_, rfl⟩

/-- The first example of a tag goes to the component that the tag refers to. -/
theorem Tags.mediaOf_of_run {scope : Scope} {tag : Element} {schema : Schema} {key : String}
    {first : String × Example} {r s : Registry}
    (hschema : (schemaOf scope tag).run r = some (.ok (some schema), s))
    (hkey : schema.refKey? = some key) (hfirst : (examplesOf tag).head? = some first) :
    ∃ media, (mediaOf scope tag).run r =
      some (.ok (some media), (s.injectSample key scope.variant first.2.value).2) := by
  obtain ⟨shown, hshown⟩ := showExample_of_refKey hkey scope.variant first.2.value s
  refine ⟨⟨shown, firstOfEachKey (examplesOf tag)⟩, ?_⟩
  unfold mediaOf mediaOfSchema
  rw [run_bind_of_run hschema]
  dsimp only
  rw [hfirst]
  dsimp only
  rw [bind_assoc, run_bind_of_run hshown]
  rfl

/-- A unit whose only tag with a type is a response. -/
theorem Tags.applyAll_of_response {scope : Scope} {tag : Element} (unit : Element) (op : Operation)
    {media : Option MediaType} {r s : Registry} (hparams : unit.childrenNamed "param" = [])
    (hresponses : unit.childrenNamed "response" = [tag])
    (hcode : isStatusCode (statusCodeOf tag) = true)
    (hmedia : (mediaOf scope tag).run r = some (.ok media, s)) :
    (OperationFilter.applyAll FilterSet.standard.operation scope unit op).run r =
      some (((addTexts unit op).describedBy tag media, []), s) := by
  have hresponse : (addResponse scope tag (addTexts unit op)).run r =
      some (((addTexts unit op).describedBy tag media, []), s) := by
    unfold addResponse
    rw [if_pos hcode, run_bind_of_run hmedia]
    rfl
  -- without `param` tags the two chains of parameters and bodies are empty
  have hnone : ∀ step : Element → Step Operation, ∀ keep : Element → Bool,
      (Step.chain (((unit.childrenNamed "param").filter keep).map step) (addTexts unit op)).run r =
        some ((addTexts unit op, []), r) := by
    intro step keep
    rw [hparams]
    rfl
  refine Step.chain_cons_of_run (q := r) (b := addSummary unit op) rfl ?_
  refine Step.chain_cons_of_run (q := r) (b := addDescription unit (addSummary unit op)) rfl ?_
  refine Step.chain_cons_of_run (q := r) (b := addTexts unit op) rfl ?_
  refine Step.chain_cons_of_run (hnone _ _) ?_
  refine Step.chain_cons_of_run (hnone _ _) ?_
  refine Step.chain_cons_of_run ?_ rfl
  show (Step.chain ((unit.childrenNamed "response").map (addResponse scope)) _).run r = _
  rw [hresponses]
  exact Step.chain_cons_of_run hresponse rfl

def personResponse (name : String) : Element :=
  ((⟨"response", ∅, [.ofText "example" name], none⟩ : Element).withAttribute "code"
    "200").withAttribute "cref" "Person"

/-- Annotations with a response that shows a person of the given name. -/
def personReader (name : String) : Element := ⟨"operation", ∅, [personResponse name], none⟩

/-- All operations may answer with Bob. -/
def readerPlan : Plan :=
  .ofConfig .standard {} people 1 (some ⟨"config", ∅, [personReader "Bob"], none⟩)

/-- The variant has the person with the given name for its example. -/
def Registry.ShowsPerson (r : Registry) (v : Variant) (name : String) : Prop :=
  ∃ s, (r.componentsOf v).get? "Person" = some s ∧ s.sample = some (.string name)

theorem operationConfig_readerPlan : readerPlan.operationConfig = some (personReader "Bob") := by
  rfl

/-- Behind setting its example a component shows it. -/
theorem Registry.sample_of_injectSample {r : Registry} {v : Variant} {key : String}
    (hhas : r.has v key) (sample : Json) :
    ∃ s, ((r.injectSample key v sample).2.componentsOf v).get? key = some s ∧
      s.sample = some sample := by
  obtain ⟨-, -, hcomponents⟩ := injectSample_eq r key v sample
  obtain ⟨s, hs⟩ := hhas
  have hcopied : (copyComponents r.memo [key] (r.componentsOf v)).get? key = some s :=
    get?_copyComponents.2 (.inl hs)
  refine ⟨{ s with sample := some sample }, ?_, rfl⟩
  rw [hcomponents, if_pos rfl, get?_withSample, exemplify, hcopied, Option.map_some, if_pos rfl]

theorem refKey?_person : (Schema.component "Person").refKey? = some "Person" := by rfl

section Reader

variable {name : String} {r : Registry} {v : Variant}
variable (hname : ((Tags.examplesOf (personResponse name)).head?.map fun p => p.2.value) =
  some (.string name))
variable (hr : Valid people TypeExpr.WellNamed r)

include hr

/-- The type of the response is resolved, and its component is in the variant then. -/
theorem schemaOf_personResponse (name path : String) (v : Variant) :
    ∃ s, (Tags.schemaOf ⟨people, 1, v, path⟩ (personResponse name)).run r =
      some (.ok (some (.component "Person")), s) ∧
        Valid people TypeExpr.WellNamed s ∧ s.has v "Person" := by
  obtain ⟨s, hrun, hs⟩ := resolve_person hr v
  have hread : Source.typeExpr? "Person" = some person := by rfl
  have hself : person.core? = some person := by decide +kernel
  have hresolved := resolved_of_run (closed_wellNamed wellNamed_people)
    (fun u hu => Option.some.inj (hself.symm.trans hu) ▸ wellNamed_person) hr hrun
  exact ⟨s, Tags.schemaOf_of_run (by rfl) hread hrun, hs, hresolved.refersTo.refKey? refKey?_person⟩

include hname

theorem exemplifies_personResponse (path : String) (v : Variant) :
    Tags.Exemplifies ⟨people, 1, v, path⟩ (personResponse name) "Person" (.string name) := by
  obtain ⟨s, hrun, -⟩ := schemaOf_personResponse hr name path v
  exact ⟨⟨r, _, s, hrun, refKey?_person⟩, hname⟩

/-- Reading the annotations sets the example of the person. -/
theorem applyAll_personReader (path : String) (v : Variant) (op : Operation) :
    ∃ media s, (OperationFilter.applyAll FilterSet.standard.operation ⟨people, 1, v, path⟩
      (personReader name) op).run r =
        some (((Tags.addTexts (personReader name) op).describedBy (personResponse name) media, []),
          s) ∧ Valid people TypeExpr.WellNamed s ∧ s.ShowsPerson v name := by
  obtain ⟨q, hschema, hq, hhas⟩ := schemaOf_personResponse hr name path v
  obtain ⟨first, hfirst, hvalue⟩ := Option.map_eq_some_iff.1 hname
  obtain ⟨media, hmedia⟩ := Tags.mediaOf_of_run hschema refKey?_person hfirst
  rw [hvalue] at hmedia
  have hcode : Tags.statusCodeOf (personResponse name) =
      Tags.statusCodeOf (personResponse "") := rfl
  have hstatus : Tags.isStatusCode (Tags.statusCodeOf (personResponse name)) = true := by
    rw [hcode]
    decide +kernel
  refine ⟨some media, _, ?_, hq.injectSample, sample_of_injectSample hhas _⟩
  exact Tags.applyAll_of_response _ op (by rfl) (by rfl) hstatus hmedia

end Reader

theorem sample_ada : ((Tags.examplesOf (personResponse "Ada")).head?.map fun p => p.2.value) =
    some (.string "Ada") := by rfl

theorem sample_bob : ((Tags.examplesOf (personResponse "Bob")).head?.map fun p => p.2.value) =
    some (.string "Bob") := by rfl

/-- What the configuration documents of every operation. -/
def readerDefaults (op : Operation) (media : Option MediaType) : Operation :=
  (Tags.addTexts (personReader "Bob") { id := op.id, method := op.method }).describedBy
    (personResponse "Bob") media

/-- The configuration shows Bob, whatever the unit documents. -/
theorem buildOperation_readerPlan {unit : Element} {path : String} {method : Method}
    {op : Operation} {r s : Registry} (hs : Valid people TypeExpr.WellNamed s)
    (hplain : (buildOperation readerPlan.unconfigured unit path method .default).run r =
      some (.ok op, s)) :
    ∃ media s', (buildOperation readerPlan unit path method .default).run r =
      some (.ok (op.fillUnsetFrom (readerDefaults op media)), s') ∧
        s'.ShowsPerson .default "Bob" := by
  have hannotations : Tags.annotationsFor (personReader "Bob") .default = personReader "Bob" := by
    rfl
  obtain ⟨media, s', hdefaults, -, hbob⟩ := applyAll_personReader sample_bob hs path .default
    { id := op.id, method := op.method }
  refine ⟨media, s', ?_, hbob⟩
  -- behind the unit, the configuration is read from the registry that the unit left
  rw [buildOperation_eq_bind operationConfig_readerPlan, run_bind_of_run hplain]
  refine configureOperation_of_run rfl ?_ ?_
  · show (Tags.annotationsFor (personReader "Bob") .default).children.isEmpty = false
    rw [hannotations]
    rfl
  · show (OperationFilter.applyAll _ _ (Tags.annotationsFor (personReader "Bob") .default) _).run
      s = _
    rw [hannotations]
    exact hdefaults

/-- The reader that shows Ada is built without and with the configuration. -/
theorem buildOperation_personReader : ∃ op op' s s',
    (buildOperation readerPlan.unconfigured (personReader "Ada") "/a" .get .default).run {} =
      some (.ok op, s) ∧
    (buildOperation readerPlan (personReader "Ada") "/a" .get .default).run {} =
      some (.ok op', s') ∧
    s.ShowsPerson .default "Ada" ∧ s'.ShowsPerson .default "Bob" := by
  obtain ⟨media, s, hunit, hs, hada⟩ :=
    applyAll_personReader sample_ada .empty "/a" .default (.new "/a" .get)
  have hplain := buildOperation_of_applyAll readerPlan.unconfigured rfl hunit
  obtain ⟨media', s', hconfigured, hbob⟩ := buildOperation_readerPlan hs hplain
  exact ⟨_, _, s, s', hplain, hconfigured, hada, hbob⟩

/-- The example of Ada, which the unit documents, is replaced by that of the configuration. -/
theorem example_replaced : ∃ op op' s s',
    (buildOperation readerPlan.unconfigured (personReader "Ada") "/a" .get .default).run {} =
      some (.ok op, s) ∧
    (buildOperation readerPlan (personReader "Ada") "/a" .get .default).run {} =
      some (.ok op', s') ∧
    (∃ tag ∈ Tags.bodyTags (personReader "Ada"),
      Tags.Exemplifies (readerPlan.scope "/a" .default) tag "Person" (.string "Ada")) ∧
    s.ShowsPerson .default "Ada" ∧ s'.ShowsPerson .default "Bob" := by
  obtain ⟨op, op', s, s', hplain, hconfigured, hada, hbob⟩ := buildOperation_personReader
  refine ⟨op, op', s, s', hplain, hconfigured, ⟨personResponse "Ada", ?_, ?_⟩, hada, hbob⟩
  · have htags : Tags.bodyTags (personReader "Ada") = [personResponse "Ada"] := by rfl
    rw [htags]
    exact List.mem_singleton_self _
  · exact exemplifies_personResponse sample_ada .empty "/a" .default

theorem documentation_kept_reader : ∃ op op' s s',
    (buildOperation readerPlan.unconfigured (personReader "Ada") "/a" .get .default).run {} =
      some (.ok op, s) ∧
    (buildOperation readerPlan (personReader "Ada") "/a" .get .default).run {} =
      some (.ok op', s') ∧
    op.KeptIn op' ∧ ∀ key known, (s.componentsOf .default).get? key = some known →
      ∃ kept, (s'.componentsOf .default).get? key = some kept ∧
        Effect.KeptWith (readerPlan.GivesExample (personReader "Bob") "/a" .default) key known
          kept := by
  obtain ⟨op, op', s, s', hplain, hconfigured, -⟩ := buildOperation_personReader
  exact ⟨op, op', s, s', hplain, hconfigured,
    documentation_kept rfl operationConfig_readerPlan hplain hconfigured⟩

end EndpointDocs
