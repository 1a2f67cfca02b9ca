import EndpointDocs.Proofs.Generation.Correspondence
import EndpointDocs.Proofs.Generation.Rejection
import EndpointDocs.Proofs.Generation.Unfinished
import EndpointDocs.Proofs.Variant

/-!
# The order of units

Units that do not share a path and a method do not get in each other's way. Each has the outcome
that it has alone (`Plan.Alone`), and brings the components to the variants that it brings alone:
what a run holds is the sum of its units (`RunSums`). Operations and servers follow from the units
of a document as well, so two runs over the same units in another order end up with the same
documents, but for the order of the servers and for the examples of components, of which the last
one counts (`Document.Reordered`).

Two things make this work. A unit that shares its endpoint with no other one can not become a
duplicate, so the documents of the run do not matter to it. And what the registry holds already
changes no answer, so the registry of the run does not matter to it either; the comparison of the
run with one on an empty registry is `Comparison.beside`.
-/

namespace EndpointDocs

open Registry Resolving

/-! ## A unit alone

The unit is processed as if it were the only one. A different depth is allowed there: on an empty
registry more components have to be built than behind other units, which may need more depth. -/

/-- What becomes of the unit if it is the only one, with enough depth. -/
def Plan.Alone (plan : Plan) (unit : Element) (o : Outcome) (run : Run) : Prop :=
  ∃ depth, processUnit (plan.withDepth depth) {} unit = some (o, run)

theorem not_has_empty {v : Variant} {key : String} : ¬ ({} : Registry).has v key :=
  fun ⟨_, hs⟩ => nomatch hs

section Alone

variable {plan : Plan} {run next alone other : Run} {unit : Element} {o o' : Outcome}
variable (hfilters : plan.filters = FilterSet.standard)

include hfilters

/-- A larger depth gives no other result, so it is the same for any two depths at which there is
one. -/
theorem Plan.Alone.unique (h : plan.Alone unit o alone) (h' : plan.Alone unit o' other) :
    o = o' ∧ alone = other := by
  obtain ⟨d, hrun⟩ := h
  obtain ⟨d', hrun'⟩ := h'
  have hmore := processUnit_withDepth hfilters (le_max_left d d') hrun
  have hmore' := processUnit_withDepth hfilters (le_max_right d d') hrun'
  rw [hmore] at hmore'
  exact Prod.mk.inj (Option.some.inj hmore')

variable (hresolver : plan.resolver.WellNamed)

include hresolver

/-- A unit whose path and method are free has the outcome that it has alone, and brings what it
brings alone. -/
theorem alone_of_processUnit (hvalid : Valid plan.resolver TypeExpr.WellNamed run.registry)
    (hfree : ∀ path method, Endpoint.of? unit = some (path, method) →
      ∀ v, isTaken run.documents path method v = false)
    (hrun : processUnit plan run unit = some (o, next)) :
    ∃ alone, plan.Alone unit o alone ∧
      ∀ v key, next.registry.has v key ↔ run.registry.has v key ∨ alone.registry.has v key := by
  cases hof : Endpoint.of? unit with
  | none =>
    obtain ⟨o', -, hprocess⟩ := processUnit_of_no_endpoint hof
    rw [hprocess] at hrun
    cases hrun
    exact ⟨{}, ⟨plan.depth, hprocess _ _⟩, fun v key => (or_iff_left not_has_empty).symm⟩
  | some endpoint =>
    obtain ⟨path, method⟩ := endpoint
    rw [processUnit_of_endpoint hof, addUnit_eq] at hrun
    obtain ⟨⟨built, registry⟩, hbuilt, hsettle⟩ := Option.map_eq_some_iff.1 hrun
    have hagrees := Comparison.Agrees.buildVariants (C := .beside hresolver run.registry.has)
      hfilters unit path method (variantsForUnit unit plan.categorizers)
    obtain ⟨d, fresh, hbuilt', hpair, -, -⟩ := hagrees.run (d := plan.depth)
      ⟨hvalid, .empty, fun v key => (or_iff_left not_has_empty).symm, trivial, trivial⟩ hbuilt
    -- on both sides the errors are those of building the unit
    have hdup : duplicateErrors run.documents path method (built.operations.map Prod.fst) = [] :=
      duplicateErrors_eq_nil.2 fun v _ => hfree path method hof v
    have hdup' : duplicateErrors ({} : Run).documents path method
        (built.operations.map Prod.fst) = [] := duplicateErrors_eq_nil.2 fun _ _ => rfl
    have halone : processUnit (plan.withDepth d) {} unit =
        some (Run.settle {} unit path method (built, fresh)) := by
      rw [processUnit_of_endpoint hof, addUnit_eq]
      exact congrArg (Option.map _) hbuilt'
    rw [Run.settle_of_free hdup] at hsettle
    rw [Run.settle_of_free hdup'] at halone
    by_cases herrors : built.errors ≠ []
    · -- rejected: nothing is brought
      rw [if_pos herrors] at hsettle halone
      cases hsettle
      exact ⟨_, ⟨d, halone⟩, fun v key => (or_iff_left not_has_empty).symm⟩
    · rw [if_neg herrors] at hsettle halone
      cases hsettle
      refine ⟨_, ⟨d, halone⟩, fun v key => ?_⟩
      rw [registry_commitAll, registry_commitAll]
      exact hpair.related v key

end Alone

/-! ## The sum of the units

Outcomes and components of a run, without its order: a key is in a variant if one of the units
brings it there alone. That the endpoints differ is used at each unit, against those before it. -/

/-- Outcomes and components of a run are those of its units, each taken up alone. -/
structure RunSums (plan : Plan) (history : List (Element × Outcome)) (run : Run) : Prop where
  alone : ∀ p ∈ history, ∃ alone, plan.Alone p.1 p.2 alone
  has : ∀ v key, run.registry.has v key ↔
    ∃ p ∈ history, ∃ alone, plan.Alone p.1 p.2 alone ∧ alone.registry.has v key

section Sums

variable {plan : Plan} {history : List (Element × Outcome)} {run next last : Run}
variable {unit : Element} {o : Outcome} {units : List Element} {outcomes : List Outcome}
variable (hfilters : plan.filters = FilterSet.standard) (hresolver : plan.resolver.WellNamed)

theorem RunSums.start : RunSums plan [] {} where
  alone _ hp := nomatch hp
  has _ _ := iff_of_false not_has_empty fun ⟨_, hp, _⟩ => nomatch hp

include hfilters hresolver

theorem RunSums.processUnit (h : RunSums plan history run) (hholds : RunHolds plan history run)
    (hnew : ∀ p ∈ history, ∀ endpoint ∈ Endpoint.of? unit, Endpoint.of? p.1 ≠ some endpoint)
    (hrun : EndpointDocs.processUnit plan run unit = some (o, next)) :
    RunSums plan (history ++ [(unit, o)]) next := by
  -- an endpoint that is taken is that of a unit before
  have hfree : ∀ path method, Endpoint.of? unit = some (path, method) →
      ∀ v, isTaken run.documents path method v = false := by
    intro path method hof v
    rw [← Bool.not_eq_true]
    intro htaken
    obtain ⟨p, hp, -, -, hof'⟩ := hholds.isTaken_iff.1 htaken
    exact hnew p hp (path, method) hof hof'
  obtain ⟨alone, halone, hhas⟩ :=
    alone_of_processUnit hfilters hresolver hholds.valid hfree hrun
  refine ⟨fun p hp => ?_, fun v key => ?_⟩
  · rcases List.mem_append.1 hp with hp | hp
    · exact h.alone p hp
    · rw [List.mem_singleton.1 hp]
      exact ⟨alone, halone⟩
  -- what the unit brings alone is a matter of the unit, not of a run of it
  · have hlast : (∃ other, plan.Alone unit o other ∧ other.registry.has v key) ↔
        alone.registry.has v key := by
      constructor
      · rintro ⟨other, hother, hk⟩
        rwa [(halone.unique hfilters hother).2]
      · exact fun hk => ⟨alone, halone, hk⟩
    simp only [hhas, h.has, List.mem_append, List.mem_singleton, or_and_right, exists_or,
      exists_eq_left, hlast]

/-- The induction is on the units. -/
theorem RunSums.processUnits (h : RunSums plan history run) (hholds : RunHolds plan history run)
    (hnodup : ((history.map Prod.fst ++ units).filterMap Endpoint.of?).Nodup)
    (hrun : EndpointDocs.processUnits plan units run = some (outcomes, last)) :
    RunSums plan (history ++ units.zip outcomes) last := by
  induction units generalizing history run outcomes with
  | nil =>
    cases hrun
    rwa [List.zip_nil_left, List.append_nil]
  | cons unit rest ih =>
    obtain ⟨o, next, later, hunit, hrest, rfl⟩ := processUnits_cons.1 hrun
    -- no unit before has the endpoint
    have hnew : ∀ p ∈ history, ∀ endpoint ∈ Endpoint.of? unit,
        Endpoint.of? p.1 ≠ some endpoint := by
      intro p hp endpoint hof hof'
      rw [List.filterMap_append, List.nodup_append] at hnodup
      refine hnodup.2.2 endpoint ?_ endpoint ?_ rfl
      · exact List.mem_filterMap.2 ⟨p.1, List.mem_map_of_mem hp, hof'⟩
      · exact List.mem_filterMap.2 ⟨unit, List.mem_cons_self, hof⟩
    have hnext := h.processUnit hfilters hresolver hholds hnew hunit
    have hnodup' : (((history ++ [(unit, o)]).map Prod.fst ++ rest).filterMap
        Endpoint.of?).Nodup := by
      rw [List.map_append, List.append_assoc]
      exact hnodup
    have hall := ih hnext (hholds.processed hfilters hresolver (processed_of_processUnit hunit))
      hnodup' hrest
    rwa [List.append_assoc] at hall

theorem runSums_of_processUnits (hnodup : (units.filterMap Endpoint.of?).Nodup)
    (hrun : EndpointDocs.processUnits plan units {} = some (outcomes, last)) :
    RunSums plan (units.zip outcomes) last :=
  RunSums.start.processUnits hfilters hresolver .start hnodup hrun

end Sums

/-! ## Components apart from examples

The component of a key is what its type is made into, and keys of well-named types belong to one
type only. So it is the same wherever it comes up, except that examples are put into it along the
way. -/

/-- The schema without the example at its top. -/
def Schema.withoutSample (s : Schema) : Schema := { s with sample := none }

/-- Apart from its example, a component is the same in every variant of every registry. -/
theorem Registry.Valid.withoutSample_eq {resolver : Resolver} {r r' : Registry} {v w : Variant}
    {key : String} {s s' : Schema} (hresolver : resolver.WellNamed)
    (hr : Valid resolver TypeExpr.WellNamed r) (hr' : Valid resolver TypeExpr.WellNamed r')
    (hs : (r.componentsOf v).get? key = some s) (hs' : (r'.componentsOf w).get? key = some s') :
    s.withoutSample = s'.withoutSample := by
  have hclosed := closed_wellNamed hresolver
  obtain ⟨c, hc, hfragment, -⟩ := hr.copies v key s hs
  obtain ⟨c', hc', hfragment', -⟩ := hr'.copies w key s' hs'
  obtain ⟨t, -, ht, rfl, -⟩ := hr.sound.stored hc
  obtain ⟨t', -, ht', hkey, -⟩ := hr'.sound.stored hc'
  obtain rfl := TypeExpr.refKey_injective ht' ht hkey
  -- both hold the component that the type has by itself
  have hcomponent := hr.sound.component?_eq hclosed (fun _ => id) ht hc
  have hcomponent' := hr'.sound.component?_eq hclosed (fun _ => id) ht hc'
  rw [hcomponent] at hcomponent'
  cases hcomponent'
  rw [hfragment, hfragment']
  rfl

/-! ## The same units in another order

At its end a run has been described in four ways, gathered in `RunEnds`: what its documents hold,
what is still unfinished in them, which units are listed for a variant, and what the sum of its
units is. Each of these is about membership in the list of units with their outcomes, and this
membership is the same for both orders (`RunEnds.mem_zip_perm`). -/

/-- The same document up to the order of its servers and the examples of its components. -/
structure Document.Reordered (d d' : Document) : Prop where
  paths : d.paths = d'.paths
  servers : d.servers.Perm d'.servers
  components : ∀ key, (d.components.get? key).map Schema.withoutSample =
    (d'.components.get? key).map Schema.withoutSample

/-- What is known of a run at its end. -/
structure RunEnds (plan : Plan) (units : List Element) (outcomes : List Outcome) (run : Run) :
    Prop where
  length : outcomes.length = units.length
  holds : RunHolds plan (units.zip outcomes) run
  unfinished : run.Unfinished
  lists : RunLists plan (units.zip outcomes) run
  sums : RunSums plan (units.zip outcomes) run

theorem runEnds_of_processUnits {plan : Plan} {units : List Element} {outcomes : List Outcome}
    {last : Run} {d : Nat} (hfilters : plan.filters = FilterSet.standard)
    (hresolver : plan.resolver.WellNamed) (hnodup : (units.filterMap Endpoint.of?).Nodup)
    (hrun : processUnits (plan.withDepth d) units {} = some (outcomes, last)) :
    RunEnds plan units outcomes last := by
  have hstandard : (plan.withDepth d).filters = FilterSet.standard := hfilters
  have hholds := runHolds_of_processUnits hstandard hresolver hrun
  have hlists := holds_of_processUnits (RunLists (plan.withDepth d))
    (fun h hp => h.processed hstandard hresolver hp) .start hrun
  have hsums := runSums_of_processUnits hstandard hresolver hnodup hrun
  -- none of this depends on the depth
  exact ⟨length_outcomes hrun,
    ⟨hholds.valid, hholds.accepted, hholds.success, hholds.nodup, hholds.document,
      hholds.operation⟩,
    unfinished_of_processUnits hrun, ⟨hlists.valid, hlists.committed⟩, ⟨hsums.alone, hsums.has⟩⟩

/-- The origins of several units are those of one of them. -/
theorem Servers.mem_originsOf {units : List Element} {url : String} :
    url ∈ originsOf units ↔ ∃ unit ∈ units, url ∈ originsOf [unit] := by
  unfold originsOf
  simp only [List.mem_filterMap, List.mem_flatMap, List.mem_singleton, exists_eq_left]
  constructor
  · rintro ⟨text, ⟨unit, hunit, htext⟩, horigin⟩
    exact ⟨unit, hunit, text, htext, horigin⟩
  · rintro ⟨unit, hunit, text, htext, horigin⟩
    exact ⟨text, ⟨unit, hunit, htext⟩, horigin⟩

section Ends

variable {plan : Plan} {units others : List Element} {outcomes outcomes' : List Outcome}
variable {run run' : Run} {v : Variant} {unit : Element} {o : Outcome}
variable (hfilters : plan.filters = FilterSet.standard)

include hfilters

/-- The outcomes of a run are those that the units have alone. -/
theorem RunEnds.mem_zip_iff (h : RunEnds plan units outcomes run) :
    (unit, o) ∈ units.zip outcomes ↔ unit ∈ units ∧ ∃ alone, plan.Alone unit o alone := by
  constructor
  · exact fun hp => ⟨(List.of_mem_zip hp).1, h.sums.alone _ hp⟩
  · rintro ⟨hunit, alone, halone⟩
    obtain ⟨i, hi⟩ := List.mem_iff_getElem?.1 hunit
    -- the unit has some outcome in the run, and it has only one alone
    have hlt : i < outcomes.length := h.length ▸ (List.getElem?_eq_some_iff.1 hi).1
    obtain ⟨o', ho'⟩ : ∃ o', outcomes[i]? = some o' := ⟨_, List.getElem?_eq_getElem hlt⟩
    have hp : (unit, o') ∈ units.zip outcomes :=
      List.mem_of_getElem? (List.getElem?_zip_eq_some.2 ⟨hi, ho'⟩)
    obtain ⟨other, hother⟩ := h.sums.alone _ hp
    rwa [(halone.unique hfilters hother).1]

variable (h : RunEnds plan units outcomes run) (h' : RunEnds plan others outcomes' run')
variable (hperm : units.Perm others)

include h h' hperm

theorem RunEnds.mem_zip_perm {p : Element × Outcome} :
    p ∈ units.zip outcomes ↔ p ∈ others.zip outcomes' := by
  obtain ⟨unit, o⟩ := p
  rw [h.mem_zip_iff hfilters, h'.mem_zip_iff hfilters, hperm.mem_iff]

omit hperm in
/-- Wherever a unit stands in the two lists, it has the same outcome. -/
theorem RunEnds.outcome_eq {i j : Nat} (hi : units[i]? = some unit) (hj : others[j]? = some unit) :
    outcomes[i]? = outcomes'[j]? := by
  have hlt : i < outcomes.length := h.length ▸ (List.getElem?_eq_some_iff.1 hi).1
  have hlt' : j < outcomes'.length := h'.length ▸ (List.getElem?_eq_some_iff.1 hj).1
  obtain ⟨o, ho⟩ : ∃ o, outcomes[i]? = some o := ⟨_, List.getElem?_eq_getElem hlt⟩
  obtain ⟨o', ho'⟩ : ∃ o, outcomes'[j]? = some o := ⟨_, List.getElem?_eq_getElem hlt'⟩
  have hp : (unit, o) ∈ units.zip outcomes :=
    List.mem_of_getElem? (List.getElem?_zip_eq_some.2 ⟨hi, ho⟩)
  have hp' : (unit, o') ∈ others.zip outcomes' :=
    List.mem_of_getElem? (List.getElem?_zip_eq_some.2 ⟨hj, ho'⟩)
  obtain ⟨alone, halone⟩ := h.sums.alone _ hp
  obtain ⟨alone', halone'⟩ := h'.sums.alone _ hp'
  rw [ho, ho']
  exact congrArg some (halone.unique hfilters halone').1

/-- The outcome is a function of the unit, so permuting units permutes outcomes. -/
theorem RunEnds.perm_outcomes : outcomes.Perm outcomes' := by
  let has : Element → Outcome → Prop := fun unit o => ∃ alone, plan.Alone unit o alone
  have hall : List.Forall₂ has units outcomes :=
    List.forall₂_iff_zip.2 ⟨h.length.symm, fun hp => h.sums.alone _ hp⟩
  have hall' : List.Forall₂ has others outcomes' :=
    List.forall₂_iff_zip.2 ⟨h'.length.symm, fun hp => h'.sums.alone _ hp⟩
  have hunique : Relator.RightUnique has := by
    rintro unit o o' ⟨alone, halone⟩ ⟨other, hother⟩
    exact (halone.unique hfilters hother).1
  obtain ⟨reordered, hreordered, hperm⟩ := List.perm_comp_forall₂ hperm hall'
  rwa [List.right_unique_forall₂' hunique hall hreordered]

/-- From here on only membership counts, and each line is about one part of the documents. -/
theorem RunEnds.operation?_eq (path : String) (method : Method) :
    run.operation? v path method = run'.operation? v path method := by
  refine Option.ext fun op => ?_
  simp only [h.holds.operation, h'.holds.operation, h.mem_zip_perm hfilters h' hperm]

theorem RunEnds.has_iff {key : String} : run.registry.has v key ↔ run'.registry.has v key := by
  simp only [h.sums.has, h'.sums.has, h.mem_zip_perm hfilters h' hperm]

theorem RunEnds.mem_committed_iff :
    unit ∈ (run.committed.get? v).getD [] ↔ unit ∈ (run'.committed.get? v).getD [] := by
  rw [h.lists.committed, h'.lists.committed]
  unfold listedUnits
  simp only [List.mem_map, List.mem_filter, h.mem_zip_perm hfilters h' hperm]

theorem RunEnds.exists_document_iff :
    (∃ d, run.documents.get? v = some d) ↔ ∃ d, run'.documents.get? v = some d := by
  simp only [h.holds.document, h'.holds.document, h.mem_zip_perm hfilters h' hperm]

/-- The documents of a variant are finished alike. -/
theorem RunEnds.reordered (hresolver : plan.resolver.WellNamed) {d d' : Document}
    (hd : run.documents.get? v = some d) (hd' : run'.documents.get? v = some d') :
    (plan.finished run v d).Reordered (plan.finished run' v d') := by
  have hunfinished := h.unfinished v d hd
  have hunfinished' := h'.unfinished v d' hd'
  refine ⟨?_, ?_, fun key => ?_⟩
  · show d.paths = d'.paths
    refine hunfinished.paths_eq hunfinished' fun path method => ?_
    have hop := h.operation?_eq hfilters h' hperm (v := v) path method
    unfold Run.operation? at hop
    rwa [hd, hd'] at hop
  -- servers are collected without repetition, so it is enough that the same ones come up
  · show ((Servers.originsOf _).foldl addNew d.servers).Perm
      ((Servers.originsOf _).foldl addNew d'.servers)
    rw [hunfinished.servers, hunfinished'.servers]
    refine (List.perm_ext_iff_of_nodup (nodup_foldl_addNew List.nodup_nil)
      (nodup_foldl_addNew List.nodup_nil)).2 fun url => ?_
    rw [mem_foldl_addNew, mem_foldl_addNew, Servers.mem_originsOf, Servers.mem_originsOf]
    simp only [h.mem_committed_iff hfilters h' hperm]
  · show ((run.registry.flush v d.components).get? key).map _ =
      ((run'.registry.flush v d'.components).get? key).map _
    rw [get?_flush, get?_flush, hunfinished.components, hunfinished'.components]
    show ((run.registry.componentsOf v).get? key).map _ =
      ((run'.registry.componentsOf v).get? key).map _
    have hhas : run.registry.has v key ↔ run'.registry.has v key := h.has_iff hfilters h' hperm
    -- a key is in both variants or in neither, and what is there differs in its example at most
    cases hs : (run.registry.componentsOf v).get? key with
    | none =>
      cases hs' : (run'.registry.componentsOf v).get? key with
      | none => rfl
      | some s' =>
        obtain ⟨s, hs''⟩ := hhas.2 ⟨s', hs'⟩
        cases hs.symm.trans hs''
    | some s =>
      obtain ⟨s', hs'⟩ := hhas.1 ⟨s, hs⟩
      rw [hs', Option.map_some, Option.map_some,
        h.holds.valid.withoutSample_eq hresolver h'.holds.valid hs hs']

end Ends

/-- Two results for the same units in another order. -/
structure GenerationResult.Reordered (units others : List Element)
    (result result' : GenerationResult) : Prop where
  /-- Each unit has the same outcome at both of its places. -/
  outcome : ∀ (i j : Nat) unit, units[i]? = some unit → others[j]? = some unit →
    result.outcomes[i]? = result'.outcomes[j]?
  outcomes : result.outcomes.Perm result'.outcomes
  variants : ∀ v, (∃ d, result.documents.get? v = some d) ↔
    ∃ d, result'.documents.get? v = some d
  documents : ∀ v d d', result.documents.get? v = some d → result'.documents.get? v = some d' →
    d.Reordered d'

/-- The order of units that do not share a path and a method does not matter. -/
theorem reordered_of_perm {settings : Settings} {resolver : Resolver} {depth depth' : Nat}
    {config : Option Element} {annotations others : Element} {result result' : GenerationResult}
    (hresolver : resolver.WellNamed) (hperm : annotations.operations.Perm others.operations)
    (hnodup : (annotations.operations.filterMap Endpoint.of?).Nodup)
    (hrun : (Plan.ofConfig .standard settings resolver depth config).generate annotations =
      some result)
    (hrun' : (Plan.ofConfig .standard settings resolver depth' config).generate others =
      some result') :
    result.Reordered annotations.operations others.operations result' := by
  by_cases hunits : annotations.operations = []
  -- without units both results are empty
  · have hothers : others.operations = [] := (hunits ▸ hperm).nil_eq.symm
    unfold Plan.generate at hrun hrun'
    rw [hunits] at hrun
    rw [hothers] at hrun'
    cases hrun
    cases hrun'
    refine ⟨fun i j unit hi => ?_, .refl _, fun v => .rfl, fun v d d' hd => nomatch hd⟩
    rw [hunits] at hi
    cases hi
  · have hothers : others.operations ≠ [] := fun h => hunits (h ▸ hperm).eq_nil
    let plan := Plan.ofConfig .standard settings resolver depth config
    obtain ⟨outcomes, run, hprocess, rfl⟩ := exists_run_of_generate rfl hunits hrun
    obtain ⟨outcomes', run', hprocess', rfl⟩ := exists_run_of_generate rfl hothers hrun'
    have hnodup' : (others.operations.filterMap Endpoint.of?).Nodup :=
      (hperm.filterMap Endpoint.of?).nodup_iff.1 hnodup
    have hends : RunEnds plan annotations.operations outcomes run :=
      runEnds_of_processUnits rfl hresolver hnodup hprocess
    have hends' : RunEnds plan others.operations outcomes' run' :=
      runEnds_of_processUnits rfl hresolver hnodup' hprocess'
    refine ⟨fun i j unit => hends.outcome_eq rfl hends',
      hends.perm_outcomes rfl hends' hperm, fun v => ?_, fun v d d' hd hd' => ?_⟩
    · have hvariants := hends.exists_document_iff rfl hends' hperm (v := v)
      rw [KeyMap.get?_mapValues, KeyMap.get?_mapValues]
      simpa using hvariants
    · rw [KeyMap.get?_mapValues] at hd hd'
      obtain ⟨doc, hdoc, rfl⟩ := Option.map_eq_some_iff.1 hd
      obtain ⟨doc', hdoc', rfl⟩ := Option.map_eq_some_iff.1 hd'
      exact hends.reordered rfl hends' hperm hresolver hdoc hdoc'

/-! ## A service

Two units with different endpoints, in both orders. -/

def serviceOf (units : List Element) : Element := ⟨"doc", ∅, units, none⟩

theorem generate_serviceOf {units : List Element} (hunits : (serviceOf units).operations = units)
    (hpersons : ∀ unit ∈ units, ∃ url verb audience, unit = personUnit url verb audience) :
    ∃ result, staffPlan.generate (serviceOf units) = some result := by
  refine exists_generate rfl wellNamed_people fun unit hunit => ?_
  obtain ⟨url, verb, audience, rfl⟩ := hpersons unit (hunits ▸ hunit)
  exact reaches_personUnit url verb audience

theorem reordered_service : ∃ result result',
    staffPlan.generate (serviceOf
      [personUnit "/a" "get" "partners", personUnit "/b" "put" "all"]) = some result ∧
    staffPlan.generate (serviceOf
      [personUnit "/b" "put" "all", personUnit "/a" "get" "partners"]) = some result' ∧
    result.Reordered [personUnit "/a" "get" "partners", personUnit "/b" "put" "all"]
      [personUnit "/b" "put" "all", personUnit "/a" "get" "partners"] result' := by
  have hunits : (serviceOf
      [personUnit "/a" "get" "partners", personUnit "/b" "put" "all"]).operations =
        [personUnit "/a" "get" "partners", personUnit "/b" "put" "all"] := by decide +kernel
  have hothers : (serviceOf
      [personUnit "/b" "put" "all", personUnit "/a" "get" "partners"]).operations =
        [personUnit "/b" "put" "all", personUnit "/a" "get" "partners"] := by decide +kernel
  obtain ⟨result, hrun⟩ := generate_serviceOf hunits (by simp)
  obtain ⟨result', hrun'⟩ := generate_serviceOf hothers (by simp)
  -- the two units have different endpoints, so neither is in the way of the other
  have hendpoints : [personUnit "/a" "get" "partners", personUnit "/b" "put" "all"].filterMap
      Endpoint.of? = [("/a", .get), ("/b", .put)] := by decide +kernel
  have hperm : (serviceOf
      [personUnit "/a" "get" "partners", personUnit "/b" "put" "all"]).operations.Perm
        (serviceOf
          [personUnit "/b" "put" "all", personUnit "/a" "get" "partners"]).operations := by
    rw [hunits, hothers]
    exact .swap _ _ []
  have hsame := reordered_of_perm wellNamed_people hperm
    (by rw [hunits, hendpoints]; decide) hrun hrun'
  rw [hunits, hothers] at hsame
  exact ⟨result, result', hrun, hrun', hsame⟩

end EndpointDocs
