import EndpointDocs.Generation
import EndpointDocs.Proofs.Tags.Agreement

/-!
# Building a unit

With the standard filters a unit is built in the same way whatever the registry holds. So there is
*the* operation of a unit for a variant, the one that is built on a new registry (`Plan.Builds`),
and building a unit for its variants gives these operations and the errors of the others
(`built_of_run`).
-/

namespace EndpointDocs

open Registry Resolving

/-- The same plan with another depth. -/
def Plan.withDepth (plan : Plan) (depth : Nat) : Plan := { plan with depth := depth }

/-- The operation that a unit is built from. -/
def Operation.new (path : String) (method : Method) : Operation :=
  { id := OperationId.generate path method, method }

namespace Comparison

variable {plan : Plan} {C : Comparison plan.resolver} {unit : Element} {path : String}
variable {method : Method} {v : Variant}

/-! ### Two registries

The filters agree on two registries, and building a unit is applying them, first those of operations
and then those of the configuration. So the lemmas go through the same steps as the definitions. -/

/-- The operation of a result is a sketch of the one that it was built from. -/
def ResultSketch (v : Variant) (first : Operation)
    (result : Except (List GenerationError) Operation) (r : Registry) : Prop :=
  ∀ op, result = .ok op → Sketch v first op r

/-- The filters of the configuration are given an item with one operation, and this one is taken out
of it again. -/
theorem Agrees.configureOperation (hfilters : plan.filters = FilterSet.standard)
    (config : Element) (op : Operation) :
    C.Agrees (Sketch v (.new path method) op)
      (fun d => EndpointDocs.configureOperation (plan.withDepth d) ⟨plan.resolver, d, v, path⟩
        config op)
      (ResultSketch v (.new path method)) := by
  let scope : Scope := ⟨plan.resolver, plan.depth, v, path⟩
  have hstandard : OperationConfigFilters scope C plan.filters.operation
      plan.filters.operationConfig :=
    hfilters ▸ operationConfigFilters_standard (operationFilters_standard scope C)
  have hall := hstandard.applyAll config (OperationId.generate path method)
  refine .bind (((hall _).frame (fun _ => op.method = method) fun _ _ _ h => h).weaken
    fun r hop => ⟨?_, hop.same.2⟩) fun found => ?_
  -- the item holds the operation and nothing else
  · intro m op' hm
    rw [KeyMap.get?_insert] at hm
    split at hm
    · next hmethod =>
      cases hm
      exact hmethod ▸ ⟨⟨hop.same.1, rfl⟩, hop.refersTo⟩
    · cases hm
  · obtain ⟨item, errors⟩ := found
    by_cases herrors : errors ≠ []
    · simp only [if_pos herrors]
      refine .pure fun r _ => ?_
      rintro _ ⟨⟩
    · simp only [if_neg herrors]
      cases hitem : item.get? op.method with
      | none =>
        refine .pure fun r _ => ?_
        rintro _ ⟨⟩
      | some op' =>
        refine .pure fun r h => ?_
        obtain ⟨hitems, hmethod⟩ := h
        rintro _ ⟨⟩
        rw [hmethod] at hitem
        exact hitems method op' hitem

/-- A unit is built in the same way on the two registries. -/
theorem Agrees.buildOperation (hfilters : plan.filters = FilterSet.standard) (unit : Element)
    (path : String) (method : Method) (v : Variant) :
    C.Agrees (fun _ => True)
      (fun d => EndpointDocs.buildOperation (plan.withDepth d) unit path method v)
      (ResultSketch v (.new path method)) := by
  let scope : Scope := ⟨plan.resolver, plan.depth, v, path⟩
  have hstandard : OperationFilters scope C plan.filters.operation :=
    hfilters ▸ operationFilters_standard scope C
  refine .bind ((hstandard.applyAll unit (.new path method) _).weaken
    fun r _ => ⟨⟨rfl, rfl⟩, .new _ _⟩) fun found => ?_
  obtain ⟨op, errors⟩ := found
  by_cases herrors : errors ≠ []
  · simp only [if_pos herrors]
    refine .pure fun r _ => ?_
    rintro _ ⟨⟩
  · simp only [if_neg herrors]
    have hsame : ∀ d, (plan.withDepth d).operationConfig = plan.operationConfig := fun _ => rfl
    simp only [hsame]
    -- without configuration the operation is left as it is
    cases plan.operationConfig with
    | none =>
      refine .pure fun r hop => ?_
      rintro _ ⟨⟩
      exact hop
    | some config => exact .configureOperation hfilters config op

/-- The operations that were built are sketches for their variants. -/
def BuiltSketch (first : Operation) (built : Built) (r : Registry) : Prop :=
  ∀ p ∈ built.operations, Sketch p.1 first p.2 r

/-- The induction is on the variants; the operation that was built before stays a sketch while the
registry grows. -/
theorem Agrees.buildVariants (hfilters : plan.filters = FilterSet.standard) (unit : Element)
    (path : String) (method : Method) (variants : List Variant) :
    C.Agrees (fun _ => True)
      (fun d => EndpointDocs.buildVariants (plan.withDepth d) unit path method variants)
      (BuiltSketch (.new path method)) := by
  induction variants with
  | nil =>
    refine .pure fun r _ => ?_
    intro p hp
    cases hp
  | cons v rest ih =>
    refine .bind (.buildOperation hfilters unit path method v) fun result => ?_
    -- the operation of the first variant stands while the others are built
    have hkeep : ∀ r s : Registry, Extends r s → ResultSketch v (.new path method) result r →
        ResultSketch v (.new path method) result s :=
      fun r s hext h op hop => (h op hop).extends hext
    refine .bind (ih.alongside hkeep) fun built => ?_
    cases result with
    | error errors => exact .pure fun r h => h.1
    | ok op =>
      refine .pure fun r h => ?_
      intro p hp
      rcases List.mem_cons.1 hp with rfl | hp
      · have hop := h.2 op rfl
        exact ⟨hop.same, hop.refersTo.describeResponses⟩
      · exact h.1 p hp

end Comparison

/-! ## The operation of a unit

Comparing with the new registry turns agreement into a function: what is built depends on the plan,
the unit and the variant alone. Later modules speak of `Plan.Builds` and leave the registry out. -/

/-- Building the unit for the variant alone, on a new registry, ends with the given result. -/
def Plan.Builds (plan : Plan) (unit : Element) (path : String) (method : Method) (v : Variant)
    (result : Except (List GenerationError) Operation) : Prop :=
  ∃ depth s, (buildOperation (plan.withDepth depth) unit path method v).run {} = some (result, s)

section Builds

variable {plan : Plan} {unit : Element} {path : String} {method : Method} {v : Variant}
variable {result other : Except (List GenerationError) Operation} {r s : Registry}
variable (hfilters : plan.filters = FilterSet.standard)

/-- A failed build has an error to report. -/
theorem ne_nil_of_buildOperation {errors : List GenerationError}
    (hrun : (buildOperation plan unit path method v).run r = some (.error errors, s)) :
    errors ≠ [] := by
  unfold buildOperation at hrun
  obtain ⟨⟨op, found⟩, q, -, hrun⟩ := run_bind_eq_some.1 hrun
  -- an error stops the building, so there is one wherever it ends early
  by_cases hfound : found ≠ []
  · simp only [if_pos hfound] at hrun
    cases hrun
    exact hfound
  · simp only [if_neg hfound] at hrun
    split at hrun
    · cases hrun
    · unfold configureOperation at hrun
      obtain ⟨⟨item, more⟩, q', -, hrun⟩ := run_bind_eq_some.1 hrun
      by_cases hmore : more ≠ []
      · simp only [if_pos hmore] at hrun
        cases hrun
        exact hmore
      · simp only [if_neg hmore] at hrun
        split at hrun
        · cases hrun
        · cases hrun
          exact List.cons_ne_nil _ _

include hfilters

/-- There is only one result. -/
theorem Plan.Builds.unique (h : plan.Builds unit path method v result)
    (h' : plan.Builds unit path method v other) : result = other := by
  obtain ⟨d, s, hrun⟩ := h
  obtain ⟨d', s', hrun'⟩ := h'
  have hagrees := Comparison.Agrees.buildOperation (C := .self plan.resolver) hfilters unit path
    method v
  -- both are the run with the greater of the two depths
  have hmax := hagrees.within (le_max_left d d') _ _ hrun
  have hmax' := hagrees.within (le_max_right d d') _ _ hrun'
  rw [hmax] at hmax'
  exact (Prod.mk.inj (Option.some.inj hmax')).1

variable (hresolver : plan.resolver.WellNamed) (hr : Valid plan.resolver TypeExpr.WellNamed r)

include hresolver hr

/-- What is built in the course of a run is what is built on a new registry. -/
theorem builds_of_run
    (hrun : (buildOperation plan unit path method v).run r = some (result, s)) :
    plan.Builds unit path method v result ∧ Valid plan.resolver TypeExpr.WellNamed s := by
  have hagrees := Comparison.Agrees.buildOperation (C := .any hresolver) hfilters unit path
    method v
  obtain ⟨d', s', hrun', hpair, -, -⟩ :=
    hagrees.run (d := plan.depth) ⟨hr, .empty, trivial, trivial, trivial⟩ hrun
  exact ⟨⟨d', s', hrun'⟩, hpair.valid⟩

/-- A unit is built for its variants without an error exactly if it is built for each of them. The
induction is on the variants. -/
theorem built_of_run {variants : List Variant} {built : Built}
    (hrun : (buildVariants plan unit path method variants).run r = some (built, s)) :
    (built.errors = [] ↔ ∀ v ∈ variants, ∃ op, plan.Builds unit path method v (.ok op)) ∧
      (built.errors = [] → built.operations.map Prod.fst = variants) ∧
      ∀ p ∈ built.operations, ∃ op, plan.Builds unit path method p.1 (.ok op) ∧
        p.2 = op.describeResponses := by
  induction variants generalizing r built s with
  | nil =>
    cases hrun
    exact ⟨⟨fun _ v hv => (nomatch hv), fun _ => rfl⟩, fun _ => rfl, fun p hp => (nomatch hp)⟩
  | cons v rest ih =>
    unfold buildVariants at hrun
    obtain ⟨result, q, hfirst, hrun⟩ := run_bind_eq_some.1 hrun
    obtain ⟨later, q', hlater, hrun⟩ := run_bind_eq_some.1 hrun
    obtain ⟨hbuilds, hq⟩ := builds_of_run hfilters hresolver hr hfirst
    obtain ⟨herrors, hvariants, hops⟩ := ih hq hlater
    cases result with
    | ok op =>
      cases hrun
      refine ⟨?_, fun h => ?_, fun p hp => ?_⟩
      · rw [List.forall_mem_cons, ← herrors]
        exact ⟨fun h => ⟨⟨op, hbuilds⟩, h⟩, fun h => h.2⟩
      · rw [List.map_cons, hvariants h]
      · rcases List.mem_cons.1 hp with rfl | hp
        · exact ⟨op, hbuilds, rfl⟩
        · exact hops p hp
    | error errors =>
      cases hrun
      have hne := ne_nil_of_buildOperation hfirst
      have happend : errors ++ later.errors ≠ [] := List.append_ne_nil_of_left_ne_nil hne _
      -- the variant cannot be built, for it has one result only
      refine ⟨⟨fun h => absurd h happend, fun h => ?_⟩, fun h => absurd h happend, hops⟩
      obtain ⟨op, hop⟩ := h v List.mem_cons_self
      cases hop.unique hfilters hbuilds

end Builds

end EndpointDocs
