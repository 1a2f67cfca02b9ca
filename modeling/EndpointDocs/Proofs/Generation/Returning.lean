import EndpointDocs.Proofs.Generation.Finishing

/-!
# Runs that return

A run has a result if each of its units is built on every registry that may come up
(`exists_generate`). Whether a unit is built is a matter of the types that its tags refer to; a unit
with a single parameter is followed down to the type of that parameter.
-/

namespace EndpointDocs

open Registry Resolving

section Units

variable {plan : Plan} {run : Run} {unit : Element}

/-! ### Units that are reached

A run has no result where resolving a type has none, and that may depend on the unit but not on the
units before it: each is built on a valid registry, which is all that is known of what they leave.
-/

/-- On each registry that may come up the unit is built for its variants, with errors or not. -/
def Plan.Reaches (plan : Plan) (unit : Element) : Prop :=
  ∀ path method, Endpoint.of? unit = some (path, method) →
    ∀ r, Valid plan.resolver TypeExpr.WellNamed r → ∃ x,
      (buildVariants plan unit path method (variantsForUnit unit plan.categorizers)).run r = some x

/-- A unit that is built is settled, in one way or the other. -/
theorem exists_processUnit (hunit : plan.Reaches unit)
    (h : Valid plan.resolver TypeExpr.WellNamed run.registry) :
    ∃ o next, processUnit plan run unit = some (o, next) := by
  cases hof : Endpoint.of? unit with
  | none =>
    obtain ⟨o, -, hprocess⟩ := processUnit_of_no_endpoint hof
    exact ⟨o, run, hprocess plan run⟩
  | some endpoint =>
    obtain ⟨path, method⟩ := endpoint
    obtain ⟨x, hbuilt⟩ := hunit path method hof run.registry h
    rw [processUnit_of_endpoint hof, addUnit_eq, hbuilt]
    exact ⟨_, _, rfl⟩

variable (hfilters : plan.filters = FilterSet.standard) (hresolver : plan.resolver.WellNamed)

include hfilters hresolver

/-- The induction is on the units; each of them leaves a valid registry. -/
theorem exists_processUnits {units : List Element} (hunits : ∀ unit ∈ units, plan.Reaches unit)
    (h : Valid plan.resolver TypeExpr.WellNamed run.registry) :
    ∃ outcomes last, processUnits plan units run = some (outcomes, last) := by
  induction units generalizing run with
  | nil => exact ⟨[], run, rfl⟩
  | cons unit rest ih =>
    obtain ⟨hunit, hrest⟩ := List.forall_mem_cons.1 hunits
    obtain ⟨o, next, hfirst⟩ := exists_processUnit hunit h
    have hnext := (processed_of_processUnit hfirst).valid (.any hresolver) hfilters trivial h
    obtain ⟨later, last, hlater⟩ := ih hrest hnext
    exact ⟨o :: later, last, processUnits_cons.2 ⟨o, next, later, hfirst, hlater, rfl⟩⟩

/-- Finishing the documents has a result always. -/
theorem exists_generate {annotations : Element}
    (hunits : ∀ unit ∈ annotations.operations, plan.Reaches unit) :
    ∃ result, plan.generate annotations = some result := by
  by_cases hnil : annotations.operations = []
  · unfold Plan.generate
    rw [hnil]
    exact ⟨_, rfl⟩
  · have hempty : Valid plan.resolver TypeExpr.WellNamed ({} : Run).registry := .empty
    obtain ⟨outcomes, last, hrun⟩ := exists_processUnits hfilters hresolver hunits hempty
    exact ⟨_, generate_of_run hfilters hnil hrun⟩

end Units

/-! ## One parameter

The schema of the parameter is what asks the registry. All other tags of such a unit are texts. -/

/-- A tag with one type has the schema of that type. -/
theorem Tags.schemaOf_of_run {scope : Scope} {tag : Element} {source : String} {t : TypeExpr}
    {schema : Schema} {r s : Registry} (htexts : typeTexts tag = [source])
    (hread : Source.typeExpr? source = some t)
    (h : (Registry.resolve scope.resolver scope.depth t scope.variant).run r =
      some (.ok schema, s)) :
    (schemaOf scope tag).run r = some (.ok (some schema), s) := by
  unfold schemaOf widenByTexts schemaOfText
  rw [htexts]
  dsimp only
  rw [hread]
  dsimp only
  rw [run_bind_of_run h]
  rfl

/-! ## A service

Persons with managers above them, so that the only declared type mentions itself. Its units differ
in path, method and audience. This service is the input of the examples in other modules. -/

/-- The type that the parameters of the service are of. -/
def person : TypeExpr := ⟨"Person", []⟩

/-- A person may have another one above. -/
def personShape : Shape :=
  .struct [] [⟨"name", ⟨"String", []⟩, none⟩, ⟨"manager", ⟨"Option", [⟨"Box", [person]⟩]⟩, none⟩]

/-- No other type is declared. -/
def people : Resolver := fun name => if name = "Person" then some personShape else none

/-- A parameter of the query, with a type. -/
def personParameter : Element :=
  (((⟨"param", ∅, [], none⟩ : Element).withAttribute "name" "person").withAttribute "in"
    "query").withAttribute "cref" "Person"

/-- A unit with the parameter, for an audience. -/
def personUnit (url verb audience : String) : Element :=
  ⟨"operation", ∅, [.ofText "url" url, .ofText "verb" verb, .ofText "audience" audience,
    personParameter], none⟩

/-- What such a unit is built into. -/
def personOperation (path : String) (method : Method) : Operation :=
  (Operation.new path method).addParameter
    (Tags.parameterOf personParameter .query (some (.component "Person")))

/-- Units are published for their audience, too. -/
def staffPlan : Plan :=
  .ofConfig .standard {} people 1
    (some ⟨"config", ∅, [⟨"variant", ∅, [.ofText "name" "audience"], none⟩], none⟩)

/-- The second unit has the path and the method of the first one. -/
def staff : Element :=
  ⟨"doc", ∅, [personUnit "/a" "get" "partners", personUnit "/a" "get" "all",
    personUnit "/b" "put" "all"], none⟩

theorem wellNamed_person : person.WellNamed := by
  simp [person, TypeExpr.WellNamed, TypeExpr.AllWellNamed, PlainName]

/-- The fields of a person have types with plain names. -/
theorem wellNamed_people : people.WellNamed := by
  intro name shape h t ht
  unfold people at h
  split at h
  · cases h
    simp only [personShape, Shape.declaredTypes, List.map_cons, List.map_nil, List.mem_cons,
      List.not_mem_nil, or_false] at ht
    rcases ht with rfl | rfl <;> simp [person, TypeExpr.WellNamed, TypeExpr.AllWellNamed, PlainName]
  · cases h

/-- A person mentions no other type. -/
theorem mentioned_people {t u : TypeExpr} {shape : Shape} (h : people t.name = some shape)
    (hu : u ∈ shape.mentioned t.args) : u = person := by
  unfold people at h
  split at h
  · cases h
    have hmentioned : personShape.mentioned t.args = [person] := rfl
    rw [hmentioned] at hu
    exact List.mem_singleton.1 hu
  · cases h

/-- One level of depth is enough, as there is one key. -/
theorem resolve_person {r : Registry} (hr : Valid people TypeExpr.WellNamed r) (v : Variant) :
    ∃ s, (Registry.resolve people 1 person v).run r = some (.ok (.component "Person"), s) ∧
      Valid people TypeExpr.WellNamed s := by
  have hclosed := closed_wellNamed wellNamed_people
  -- the person mentions nobody else, so one component is all that is built
  have hahead : Closed people (· = person) := fun t shape u _ hs hu => mentioned_people hs hu
  have hcore : ∀ u ∈ person.core?, u = person := by
    have hself : person.core? = some person := by decide +kernel
    intro u hu
    rw [hself] at hu
    exact (Option.some.inj hu).symm
  have hawaits : Awaits (· = person) ["Person"] r := by
    rintro t rfl
    exact .inr (List.mem_singleton.2 (by decide +kernel))
  obtain ⟨⟨answer, s⟩, hrun⟩ := resolve_returns hclosed hahead (fun u hu => hu ▸ wellNamed_person)
    hcore hr.sound hawaits v
  -- the call returns, and what it returns is the answer of the resolver
  have hresolved := resolved_of_run hclosed (fun u hu => hcore u hu ▸ wellNamed_person) hr hrun
  obtain ⟨rfl, -⟩ :=
    hresolved.eq_answer hclosed (fun _ => id) hr wellNamed_people wellNamed_person
  have hanswer : people.answer person = .ok (.component "Person") := by rfl
  rw [hanswer] at hrun
  exact ⟨s, hrun, hresolved.valid hr⟩

/-- The operation of the unit has the parameter, and the component is what the registry was asked
for. -/
theorem buildOperation_person (url verb audience path : String) (method : Method) {v : Variant}
    {r s : Registry}
    (h : (Registry.resolve people 1 person v).run r = some (.ok (.component "Person"), s)) :
    (buildOperation staffPlan (personUnit url verb audience) path method v).run r =
      some (.ok (personOperation path method), s) := by
  let scope : Scope := ⟨people, 1, v, path⟩
  have hread : Source.typeExpr? "Person" = some person := by rfl
  have hschema : (Tags.schemaOf scope personParameter).run r =
      some (.ok (some (.component "Person")), s) := Tags.schemaOf_of_run (by rfl) hread h
  have hparameter : (Tags.addParameter scope personParameter (.new path method)).run r =
      some ((personOperation path method, []), s) := by
    have hlocation : Tags.locationOf scope.path personParameter = .ok .query := by rfl
    have hnone : (Operation.new path method).hasParameter (Tags.nameOf personParameter) .query =
        false := by rfl
    unfold Tags.addParameter
    rw [hlocation]
    dsimp only
    rw [hnone, if_neg Bool.false_ne_true, run_bind_of_run hschema]
    rfl
  -- the other filters find no tag
  have hall : (OperationFilter.applyAll FilterSet.standard.operation scope
      (personUnit url verb audience) (.new path method)).run r =
        some ((personOperation path method, []), s) := by
    refine Step.chain_cons_of_run (q := r) (b := .new path method) rfl ?_
    refine Step.chain_cons_of_run (q := r) (b := .new path method) rfl ?_
    refine Step.chain_cons_of_run (q := r) (b := .new path method) rfl ?_
    refine Step.chain_cons_of_run (Step.chain_cons_of_run hparameter rfl) rfl
  unfold buildOperation
  exact (run_bind_of_run hall).trans rfl

/-- The unit is built for every variant, whatever the registry holds. -/
theorem buildVariants_person (url verb audience path : String) (method : Method)
    (variants : List Variant) {r : Registry} (hr : Valid people TypeExpr.WellNamed r) :
    ∃ s, (buildVariants staffPlan (personUnit url verb audience) path method variants).run r = some
      (⟨variants.map fun v => (v, (personOperation path method).describeResponses), []⟩, s) := by
  induction variants generalizing r with
  | nil => exact ⟨r, rfl⟩
  | cons v rest ih =>
    obtain ⟨q, hresolve, hq⟩ := resolve_person hr v
    obtain ⟨s, hrest⟩ := ih hq
    have hfirst := buildOperation_person url verb audience path method hresolve
    refine ⟨s, ?_⟩
    unfold buildVariants
    rw [run_bind_of_run hfirst, run_bind_of_run hrest]
    rfl

/-- In each of its forms the unit is built. -/
theorem reaches_personUnit (url verb audience : String) :
    staffPlan.Reaches (personUnit url verb audience) := by
  intro path method _ r hr
  obtain ⟨s, hbuilt⟩ := buildVariants_person url verb audience path method _ hr
  exact ⟨_, hbuilt⟩

theorem operations_staff : staff.operations = [personUnit "/a" "get" "partners",
    personUnit "/a" "get" "all", personUnit "/b" "put" "all"] := by decide +kernel

/-- The run has a result, though one of the units is rejected. -/
theorem generate_staff : ∃ result, staffPlan.generate staff = some result := by
  refine exists_generate rfl wellNamed_people fun unit hunit => ?_
  rw [operations_staff] at hunit
  simp only [List.mem_cons, List.not_mem_nil, or_false] at hunit
  rcases hunit with rfl | rfl | rfl <;> exact reaches_personUnit _ _ _

/-- The second unit is rejected: the first one has taken its path and its method. -/
theorem rejected_staff {result : GenerationResult} (h : staffPlan.generate staff = some result) :
    ∃ o, result.outcomes[1]? = some o ∧ o.isSuccess = false := by
  have hunits : staff.operations ≠ [] := operations_staff ▸ List.cons_ne_nil _ _
  obtain ⟨outcomes, run, hrun, rfl⟩ := exists_run_of_generate rfl hunits h
  rw [operations_staff] at hrun
  obtain ⟨o, first, _, hfirst, hrest, rfl⟩ := processUnits_cons.1 hrun
  obtain ⟨o', second, _, hsecond, -, rfl⟩ := processUnits_cons.1 hrest
  refine ⟨o', rfl, ?_⟩
  have hempty : Valid people TypeExpr.WellNamed ({} : Run).registry := .empty
  have hvalid := (processed_of_processUnit hfirst).valid (.any wellNamed_people) rfl trivial hempty
  -- the second unit has an endpoint that the first one took in the default document
  have hv : variantsForUnit (personUnit "/a" "get" "partners") staffPlan.categorizers =
      [.default, ⟨"audience", "partners"⟩] := by decide +kernel
  have hv' : variantsForUnit (personUnit "/a" "get" "all") staffPlan.categorizers =
      [.default, ⟨"audience", "all"⟩] := by decide +kernel
  have hof : Endpoint.of? (personUnit "/a" "get" "partners") = some ("/a", .get) := by
    decide +kernel
  have hof' : Endpoint.of? (personUnit "/a" "get" "all") = some ("/a", .get) := by decide +kernel
  -- both units are built, each in a registry that is valid
  obtain ⟨r, hbuilt⟩ := buildVariants_person "/a" "get" "partners" "/a" .get _ hempty
  obtain ⟨s, hbuilt'⟩ := buildVariants_person "/a" "get" "all" "/a" .get _ hvalid
  rw [processUnit_of_endpoint hof, addUnit_eq, hv, hbuilt] at hfirst
  rw [processUnit_of_endpoint hof', addUnit_eq, hv', hbuilt'] at hsecond
  obtain ⟨-, rfl⟩ := Prod.ext_iff.1 (Option.some.inj hfirst)
  obtain ⟨rfl, -⟩ := Prod.ext_iff.1 (Option.some.inj hsecond)
  rfl

end EndpointDocs
