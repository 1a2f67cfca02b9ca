import EndpointDocs.Proofs.Generation.Correspondence
import EndpointDocs.Proofs.Tags.Effects
import EndpointDocs.Proofs.Variant

/-!
# Variants are independent

The variants of all units share a registry. Still the document of a variant does not depend on which
other variants there are. Building a unit for another variant leaves the components of this one
alone (`Effect.elsewhere`), and what such a build taught the registry of types shows in no answer
(`Comparison.alikeAt`). So for the components of a variant, building a unit for all its variants is
as good as building it for this one alone (`buildVariants_at`). Two runs that differ in the
categorizers list a variant equally often for each unit, and keep all that is of this variant the
same (`Run.AlikeAt`).
-/

namespace EndpointDocs

open Registry Resolving

/-! ## Building for one variant of several

Between the builds for one variant others may come, on the same registry. They leave its components
alone and only teach the registry about types. So the list of variants may be cut down to those that
are the one in question. -/

/-- What was built for the other variants, and the result for one more. -/
def Built.add (later : Built) (v : Variant) : Except (List GenerationError) Operation → Built
  | .ok op => { later with operations := (v, op.describeResponses) :: later.operations }
  | .error errors => { later with errors := errors ++ later.errors }

section BuildVariants

variable {plan : Plan} {unit : Element} {path : String} {method : Method} {v w : Variant}
variable {rest variants : List Variant} {built : Built} {r r' s : Registry}

/-- Building for several variants is building for the first and then for the rest, whatever the
first result is. -/
theorem run_buildVariants_cons :
    (buildVariants plan unit path method (v :: rest)).run r = some (built, s) ↔
      ∃ result q later, (buildOperation plan unit path method v).run r = some (result, q) ∧
        (buildVariants plan unit path method rest).run q = some (later, s) ∧
          built = later.add v result := by
  rw [buildVariants, run_bind_eq_some]
  refine exists_congr fun result => exists_congr fun q => ?_
  rw [run_bind_eq_some]
  constructor
  · rintro ⟨hfirst, later, q', hrest, hreturn⟩
    -- errors and operations are added in the same way
    cases result with
    | ok op =>
      cases hreturn
      exact ⟨later, hfirst, hrest, rfl⟩
    | error errors =>
      cases hreturn
      exact ⟨later, hfirst, hrest, rfl⟩
  · rintro ⟨later, hfirst, hrest, rfl⟩
    refine ⟨hfirst, later, s, hrest, ?_⟩
    cases result with
    | ok op => rfl
    | error errors => rfl

/-- Building for another variant leaves the components of a variant alone. -/
theorem componentsOf_buildOperation {result : Except (List GenerationError) Operation}
    (hfilters : plan.filters = FilterSet.standard) (hw : w ≠ v)
    (hrun : (buildOperation plan unit path method v).run r = some (result, s)) :
    s.componentsOf w = r.componentsOf w :=
  Effect.Of.buildOperation (E := .elsewhere plan.resolver hw) hfilters
    (fun _ _ _ _ _ => trivial) (fun _ _ _ _ _ _ _ => trivial) r result s hrun

variable (hfilters : plan.filters = FilterSet.standard) (hresolver : plan.resolver.WellNamed)

include hfilters hresolver

/-- For the components of a variant only the builds for this variant count. The induction is on the
variants. -/
theorem buildVariants_at {d : Nat} (hr : Valid plan.resolver TypeExpr.WellNamed r)
    (hr' : Valid plan.resolver TypeExpr.WellNamed r')
    (hsame : r.componentsOf w = r'.componentsOf w)
    (hrun : (buildVariants (plan.withDepth d) unit path method variants).run r = some (built, s)) :
    ∃ d' built' s', (buildVariants (plan.withDepth d') unit path method
        (variants.filter (· = w))).run r' = some (built', s') ∧
      s.componentsOf w = s'.componentsOf w := by
  induction variants generalizing r r' built with
  | nil =>
    cases hrun
    exact ⟨d, {}, r', rfl, hsame⟩
  | cons v rest ih =>
    obtain ⟨result, q, later, hfirst, hlater, rfl⟩ := run_buildVariants_cons.1 hrun
    by_cases hv : v = w
    · subst hv
      have hagrees := Comparison.Agrees.buildOperation (C := .alikeAt hresolver v) hfilters unit
        path method v
      obtain ⟨d₁, q', hfirst', hpair, -, -⟩ :=
        hagrees.run ⟨hr, hr', hsame, trivial, trivial⟩ hfirst
      obtain ⟨d₂, later', s', hlater', hsame'⟩ := ih hpair.valid hpair.valid' hpair.related hlater
      rw [List.filter_cons_of_pos (by simp)]
      have hall := Comparison.Agrees.buildVariants (C := .self plan.resolver) hfilters unit path
        method (rest.filter (· = v))
      -- the greater of the two depths does for both
      refine ⟨max d₁ d₂, later'.add v result, s', run_buildVariants_cons.2
        ⟨result, q', later', ?_, ?_, rfl⟩, hsame'⟩
      · exact hagrees.within (le_max_left d₁ d₂) _ _ hfirst'
      · exact hall.within (le_max_right d₁ d₂) _ _ hlater'
    -- a build for another variant: the registries are as alike behind it as before
    · have hstandard : (plan.withDepth d).filters = FilterSet.standard := hfilters
      have hq := (builds_of_run hstandard hresolver hr hfirst).2
      have hkept := componentsOf_buildOperation hstandard (Ne.symm hv) hfirst
      rw [List.filter_cons_of_neg (by simpa using hv)]
      exact ih hq hr' (hkept.trans hsame) hlater

/-- Building for two lists of variants that hold a variant equally often gives it the same
components. -/
theorem componentsOf_buildVariants {d d' : Nat} {variants' : List Variant} {built' : Built}
    {s' : Registry} (hr : Valid plan.resolver TypeExpr.WellNamed r)
    (hr' : Valid plan.resolver TypeExpr.WellNamed r')
    (hsame : r.componentsOf w = r'.componentsOf w)
    (hvariants : variants.filter (· = w) = variants'.filter (· = w))
    (hrun : (buildVariants (plan.withDepth d) unit path method variants).run r = some (built, s))
    (hrun' : (buildVariants (plan.withDepth d') unit path method variants').run r' =
      some (built', s')) :
    s.componentsOf w = s'.componentsOf w := by
  obtain ⟨d₁, built₁, s₁, hrun₁, hs⟩ := buildVariants_at hfilters hresolver hr hr' hsame hrun
  obtain ⟨d₂, built₂, s₂, hrun₂, hs'⟩ := buildVariants_at hfilters hresolver hr' hr' rfl hrun'
  have hall := Comparison.Agrees.buildVariants (C := .self plan.resolver) hfilters unit path
    method (variants.filter (· = w))
  -- both runs fit into the greater depth, in which they are the same run
  have hmax := hall.within (le_max_left d₁ d₂) _ _ hrun₁
  have hmax' := hall.within (le_max_right d₁ d₂) _ _ (hvariants ▸ hrun₂)
  rw [hmax] at hmax'
  cases hmax'
  exact hs.trans hs'.symm

end BuildVariants

/-! ## Other categorizers

A plan uses its categorizers for nothing but the variants of a unit. Two runs over the same units
are kept side by side, unit by unit. That the outcomes are successes in the same places is assumed:
with other variants a unit may fail for another reason. -/

/-- The same plan with other categorizers and another depth. -/
def Plan.categorizedBy (plan : Plan) (cs : List String) (depth : Nat) : Plan :=
  { plan with categorizers := cs, depth := depth }

theorem buildVariants_categorizedBy {plan : Plan} {cs : List String} {d : Nat} {unit : Element}
    {path : String} {method : Method} {variants : List Variant} :
    buildVariants (plan.categorizedBy cs d) unit path method variants =
      buildVariants (plan.withDepth d) unit path method variants := by
  induction variants with
  | nil => rfl
  | cons v rest ih =>
    rw [buildVariants, buildVariants, ih]
    rfl

/-- The two runs agree on all that is of the variant. -/
structure Run.AlikeAt (resolver : Resolver) (v : Variant) (run run' : Run) : Prop where
  document : run.documents.get? v = run'.documents.get? v
  committed : run.committed.get? v = run'.committed.get? v
  valid : Valid resolver TypeExpr.WellNamed run.registry
  valid' : Valid resolver TypeExpr.WellNamed run'.registry
  components : run.registry.componentsOf v = run'.registry.componentsOf v

section Runs

variable {plan : Plan} {cs cs' : List String} {d d' : Nat} {v : Variant}
variable {run run' next next' last last' : Run} {unit : Element} {o o' : Outcome}
variable (hfilters : plan.filters = FilterSet.standard) (hresolver : plan.resolver.WellNamed)
variable (hcategorizers : ∀ unit, (variantsForUnit unit cs).filter (· = v) =
  (variantsForUnit unit cs').filter (· = v))

include hfilters hresolver hcategorizers

/-- A unit with the same success in both runs is taken up alike. -/
theorem Run.AlikeAt.processed (h : run.AlikeAt plan.resolver v run')
    (hp : Processed (plan.categorizedBy cs d) run unit o next)
    (hp' : Processed (plan.categorizedBy cs' d') run' unit o' next')
    (ho : o.isSuccess = o'.isSuccess) : next.AlikeAt plan.resolver v next' := by
  have hstandard : ∀ d, (plan.withDepth d).filters = FilterSet.standard := fun _ => hfilters
  have hvalid := hp.valid (.any hresolver) hfilters trivial h.valid
  have hvalid' := hp'.valid (.any hresolver) hfilters trivial h.valid'
  cases hp with
  | unnamed o hof =>
    cases hp' with
    | unnamed => exact h
    | rejected path method built registry errors hof' => cases hof.symm.trans hof'
    | committed path method built registry message hof' => cases hof.symm.trans hof'
  | rejected path method built registry errors hof hbuilt =>
    cases hp' with
    | unnamed o hof' => cases hof.symm.trans hof'
    -- both rejected: documents stay, and the components go back to those from before
    | rejected => exact ⟨h.document, h.committed, hvalid, hvalid', h.components⟩
    | committed => cases ho
  | committed path method built registry message hof hbuilt herrors =>
    cases hp' with
    | unnamed o hof' => cases hof.symm.trans hof'
    | rejected => cases ho
    | committed path' method' built' registry' message' hof' hbuilt' herrors' =>
      cases hof.symm.trans hof'
      rw [buildVariants_categorizedBy] at hbuilt hbuilt'
      -- the variant is one of the unit in both runs, or in neither
      have hmem : v ∈ variantsForUnit unit cs ↔ v ∈ variantsForUnit unit cs' := by
        have hfilter : v ∈ (variantsForUnit unit cs).filter (· = v) ↔
            v ∈ (variantsForUnit unit cs').filter (· = v) := by rw [hcategorizers unit]
        simpa using hfilter
      -- the operation for the variant is that of the unit in both runs
      have hfind : Entries.find? v (firstOfEachVariant built.operations) =
          Entries.find? v (firstOfEachVariant built'.operations) := by
        refine Option.ext fun op => ?_
        have hop : Entries.find? v (firstOfEachVariant built.operations) = some op ↔ _ :=
          find?_firstOfEachVariant (hstandard d) hresolver h.valid hbuilt herrors
        have hop' : Entries.find? v (firstOfEachVariant built'.operations) = some op ↔ _ :=
          find?_firstOfEachVariant (hstandard d') hresolver h.valid' hbuilt' herrors'
        exact hop.trans ((and_congr_left' hmem).trans hop'.symm)
      have htarget : v ∈ (firstOfEachVariant built.operations).map Prod.fst ↔
          v ∈ (firstOfEachVariant built'.operations).map Prod.fst := by
        rw [← not_iff_not, ← Entries.find?_eq_none_iff, ← Entries.find?_eq_none_iff, hfind]
      refine ⟨?_, ?_, hvalid, hvalid', ?_⟩
      · rw [get?_documents_commitAll nodup_firstOfEachVariant,
          get?_documents_commitAll nodup_firstOfEachVariant, hfind]
        simp only [h.document]
      · rw [get?_committed_commitAll nodup_firstOfEachVariant,
          get?_committed_commitAll nodup_firstOfEachVariant]
        simp only [htarget, h.committed]
      · rw [registry_commitAll, registry_commitAll]
        exact componentsOf_buildVariants hfilters hresolver h.valid h.valid' h.components
          (hcategorizers unit) hbuilt hbuilt'

/-- The induction is on the units. -/
theorem Run.AlikeAt.processUnits {units : List Element} {outcomes outcomes' : List Outcome}
    (h : run.AlikeAt plan.resolver v run')
    (hrun : EndpointDocs.processUnits (plan.categorizedBy cs d) units run = some (outcomes, last))
    (hrun' : EndpointDocs.processUnits (plan.categorizedBy cs' d') units run' =
      some (outcomes', last'))
    (hsuccess : outcomes.map Outcome.isSuccess = outcomes'.map Outcome.isSuccess) :
    last.AlikeAt plan.resolver v last' := by
  induction units generalizing run run' outcomes outcomes' with
  | nil =>
    cases hrun
    cases hrun'
    exact h
  | cons unit rest ih =>
    obtain ⟨o, next, later, hunit, hrest, rfl⟩ := processUnits_cons.1 hrun
    obtain ⟨o', next', later', hunit', hrest', rfl⟩ := processUnits_cons.1 hrun'
    obtain ⟨ho, hlater⟩ := List.cons.inj hsuccess
    -- a unit with the same outcome in both runs leaves them alike, and the rest starts from there
    have hnext := h.processed hfilters hresolver hcategorizers (processed_of_processUnit hunit)
      (processed_of_processUnit hunit') ho
    exact ih hnext hrest hrest' hlater

end Runs

/-- Runs that are alike at a variant finish its document alike. -/
theorem Run.AlikeAt.finished {plan : Plan} {cs cs' : List String} {d d' : Nat} {v : Variant}
    {run run' : Run} (h : run.AlikeAt plan.resolver v run') :
    (plan.categorizedBy cs d).finished run v = (plan.categorizedBy cs' d').finished run' v := by
  funext document
  unfold Plan.finished Registry.flush
  rw [h.committed, h.components]
  rfl

/-! ## Two configurations

A document only exists for the default variant and for variants of declared categorizers. If both
configurations have a document for a variant, both declare its categorizer, so it is listed equally
often for each unit. -/

/-- A document of a run is the default one, or its categorizer is declared. -/
theorem RunHolds.eq_default_or_mem {plan : Plan} {history : List (Element × Outcome)} {run : Run}
    {v : Variant} {d : Document} (h : RunHolds plan history run)
    (hd : run.documents.get? v = some d) : v = .default ∨ v.categorizer ∈ plan.categorizers := by
  obtain ⟨p, -, -, hv⟩ := (h.document v).1 ⟨d, hd⟩
  exact eq_default_or_mem_of_mem_variantsForUnit hv

section Categorizers

variable {plan : Plan} {config config' : Option Element} {d d' : Nat} {units : List Element}
variable {outcomes outcomes' : List Outcome} {last last' : Run}
variable (hfilters : plan.filters = FilterSet.standard) (hresolver : plan.resolver.WellNamed)
variable (hrun : processUnits (plan.categorizedBy (categorizers config) d) units {} =
  some (outcomes, last))
variable (hrun' : processUnits (plan.categorizedBy (categorizers config') d') units {} =
  some (outcomes', last'))
variable (hsuccess : outcomes.map Outcome.isSuccess = outcomes'.map Outcome.isSuccess)

include hfilters hresolver hrun hrun' hsuccess

/-- Two runs are alike at a variant if both declare its categorizer or neither does. -/
theorem alikeAt_of_processUnits {v : Variant}
    (hv : v.categorizer ∈ categorizers config ↔ v.categorizer ∈ categorizers config') :
    last.AlikeAt plan.resolver v last' := by
  have hstart : Run.AlikeAt plan.resolver v {} {} := ⟨rfl, rfl, .empty, .empty, rfl⟩
  have hcategorizers : ∀ unit, (variantsForUnit unit (categorizers config)).filter (· = v) =
      (variantsForUnit unit (categorizers config')).filter (· = v) := fun unit =>
    filter_variantsForUnit (nodup_categorizers config) (nodup_categorizers config') hv
  exact hstart.processUnits hfilters hresolver hcategorizers hrun hrun' hsuccess

/-- The default variant belongs to no categorizer. -/
theorem alikeAt_default : last.AlikeAt plan.resolver .default last' := by
  refine alikeAt_of_processUnits hfilters hresolver hrun hrun' hsuccess (iff_of_false ?_ ?_)
  · exact fun h => ne_empty_of_mem_categorizers h rfl
  · exact fun h => ne_empty_of_mem_categorizers h rfl

/-- Two runs are alike at every variant that has a document in both. -/
theorem alikeAt_of_documents {v : Variant} {doc doc' : Document}
    (hdoc : last.documents.get? v = some doc) (hdoc' : last'.documents.get? v = some doc') :
    last.AlikeAt plan.resolver v last' := by
  have hstandard : ∀ cs d, (plan.categorizedBy cs d).filters = FilterSet.standard :=
    fun _ _ => hfilters
  have hholds := runHolds_of_processUnits (hstandard (categorizers config) d) hresolver hrun
  have hholds' := runHolds_of_processUnits (hstandard (categorizers config') d') hresolver hrun'
  by_cases hv : v = .default
  · rw [hv]
    exact alikeAt_default hfilters hresolver hrun hrun' hsuccess
  · exact alikeAt_of_processUnits hfilters hresolver hrun hrun' hsuccess
      (iff_of_true ((hholds.eq_default_or_mem hdoc).resolve_left hv)
        ((hholds'.eq_default_or_mem hdoc').resolve_left hv))

end Categorizers

/-- The documents of two runs with the same successes do not depend on the categorizers: every
variant that both have has the same document in both. -/
theorem document_independent_of_categorizers {settings : Settings} {resolver : Resolver}
    {depth depth' : Nat} {config config' : Option Element} {annotations : Element}
    {result result' : GenerationResult} (hresolver : resolver.WellNamed)
    (hoperation : config'.bind (·.child? "operation") = config.bind (·.child? "operation"))
    (hdocument : config'.bind (·.child? "document") = config.bind (·.child? "document"))
    (hrun : (Plan.ofConfig .standard settings resolver depth config).generate annotations =
      some result)
    (hrun' : (Plan.ofConfig .standard settings resolver depth' config').generate annotations =
      some result')
    (hsuccess : result.outcomes.map Outcome.isSuccess = result'.outcomes.map Outcome.isSuccess) :
    result.documents.get? .default = result'.documents.get? .default ∧
      ∀ v d d', result.documents.get? v = some d → result'.documents.get? v = some d' → d = d' := by
  by_cases hunits : annotations.operations = []
  · rw [documents_of_no_units hunits hrun, documents_of_no_units hunits hrun']
    exact ⟨rfl, fun v d d' hd => nomatch hd⟩
  let plan := Plan.ofConfig .standard settings resolver depth config
  -- what is the same in both configurations is all that a plan takes from them but the categorizers
  have hplan : Plan.ofConfig .standard settings resolver depth' config' =
      plan.categorizedBy (categorizers config') depth' := by
    unfold Plan.ofConfig
    rw [hoperation, hdocument]
    rfl
  rw [hplan] at hrun'
  obtain ⟨outcomes, last, hlast, rfl⟩ := exists_run_of_generate rfl hunits hrun
  obtain ⟨outcomes', last', hlast', rfl⟩ := exists_run_of_generate rfl hunits hrun'
  have hlast : processUnits (plan.categorizedBy (categorizers config) depth)
      annotations.operations {} = some (outcomes, last) := hlast
  -- each document is finished alike
  have hfinished : ∀ v, last.AlikeAt plan.resolver v last' →
      (last.documents.mapValues (plan.finished last)).get? v = (last'.documents.mapValues
        ((plan.categorizedBy (categorizers config') depth').finished last')).get? v := by
    intro v h
    have hsame : (plan.categorizedBy (categorizers config) depth).finished last v =
        (plan.categorizedBy (categorizers config') depth').finished last' v := h.finished
    rw [KeyMap.get?_mapValues, KeyMap.get?_mapValues, h.document, ← hsame]
    rfl
  refine ⟨hfinished _ (alikeAt_default rfl hresolver hlast hlast' hsuccess),
    fun v d d' hd hd' => ?_⟩
  obtain ⟨doc, hdoc, -⟩ := Option.map_eq_some_iff.1 ((KeyMap.get?_mapValues _ _ v).symm.trans hd)
  obtain ⟨doc', hdoc', -⟩ := Option.map_eq_some_iff.1 ((KeyMap.get?_mapValues _ _ v).symm.trans hd')
  have hsame := hfinished v (alikeAt_of_documents rfl hresolver hlast hlast' hsuccess hdoc hdoc')
  exact Option.some.inj (hd.symm.trans (hsame.trans hd'))

/-! ## A service

The same service with one categorizer and with two. -/

def partnerService : Element := ⟨"doc", ∅, [personUnit "/a" "get" "partners"], none⟩

/-- Units are published for their audience and for their team. -/
def teamConfig : Element :=
  ⟨"config", ∅, [⟨"variant", ∅, [.ofText "name" "audience", .ofText "name" "team"], none⟩], none⟩

theorem operations_partnerService :
    partnerService.operations = [personUnit "/a" "get" "partners"] := by decide +kernel

/-- The unit is taken up whatever the categorizers are. -/
theorem processUnit_partners (cs : List String) :
    ∃ o next, processUnit (staffPlan.categorizedBy cs 1) {} (personUnit "/a" "get" "partners") =
      some (o, next) ∧ o.isSuccess = true := by
  have hof : Endpoint.of? (personUnit "/a" "get" "partners") = some ("/a", .get) := by
    decide +kernel
  have hempty : Valid people TypeExpr.WellNamed ({} : Run).registry := .empty
  obtain ⟨s, hbuilt⟩ := buildVariants_person "/a" "get" "partners" "/a" .get
    (variantsForUnit (personUnit "/a" "get" "partners") cs) hempty
  -- no path and method are taken yet
  have hfree : ∀ variants, duplicateErrors ({} : Run).documents "/a" .get variants = [] :=
    fun _ => duplicateErrors_eq_nil.2 fun _ _ => rfl
  have hsettle : ∀ x : Built × Registry, x.1.errors = [] →
      (Run.settle {} (personUnit "/a" "get" "partners") "/a" .get x).1.isSuccess = true := by
    intro x hx
    unfold Run.settle
    simp only [hx, hfree, List.append_nil, ne_eq, not_true, if_false]
    rfl
  rw [processUnit_of_endpoint hof, addUnit_eq, buildVariants_categorizedBy]
  exact ⟨(Run.settle {} _ "/a" .get (_, s)).1, (Run.settle {} _ "/a" .get (_, s)).2,
    congrArg (Option.map _) hbuilt, hsettle _ rfl⟩

theorem generate_partnerService (cs : List String) :
    ∃ result, (staffPlan.categorizedBy cs 1).generate partnerService = some result ∧
      result.outcomes.map Outcome.isSuccess = [true] := by
  obtain ⟨o, next, hunit, ho⟩ := processUnit_partners cs
  have hrun : processUnits (staffPlan.categorizedBy cs 1) partnerService.operations {} =
      some ([o], next) := by
    rw [operations_partnerService]
    exact processUnits_cons.2 ⟨o, next, [], hunit, rfl, rfl⟩
  have hne : partnerService.operations ≠ [] := operations_partnerService ▸ List.cons_ne_nil _ _
  exact ⟨_, generate_of_run rfl hne hrun, congrArg (· :: []) ho⟩

theorem partnerService_independent_of_teams : ∃ result result',
    staffPlan.generate partnerService = some result ∧
      (Plan.ofConfig .standard {} people 1 (some teamConfig)).generate partnerService =
        some result' ∧
      result.documents.get? .default = result'.documents.get? .default ∧
      ∀ v d d', result.documents.get? v = some d → result'.documents.get? v = some d' →
        d = d' := by
  obtain ⟨result, hrun, hsuccess⟩ := generate_partnerService ["audience"]
  obtain ⟨result', hrun', hsuccess'⟩ := generate_partnerService ["audience", "team"]
  have hplan : staffPlan = staffPlan.categorizedBy ["audience"] 1 := by
    rfl
  have hplan' : Plan.ofConfig .standard {} people 1 (some teamConfig) =
      staffPlan.categorizedBy ["audience", "team"] 1 := by
    rfl
  -- both plans are the same one with other categorizers
  rw [← hplan] at hrun
  rw [← hplan'] at hrun'
  exact ⟨result, result', hrun, hrun', document_independent_of_categorizers wellNamed_people
    (by rfl) (by rfl) hrun hrun' (hsuccess.trans hsuccess'.symm)⟩

end EndpointDocs
