import EndpointDocs.Proofs.Generation.Returning

/-!
# A rejected unit leaves no trace

A unit that is rejected takes its components back, but what the registry has learned of types stays
in the memo. Two runs are `Alike` if they agree in all but that: the documents, the units in them
and the components of the variants. Taking up a unit keeps two runs alike and has the same outcome
in both, and a rejected unit leaves a run alike itself. So all goes on as if the unit had not been
there (`generate_without_rejected`).

Without the unit the registry may have to follow types that were in the memo otherwise. That takes
more depth, so the two runs need not end at the same one.
-/

namespace EndpointDocs

open Registry Resolving

/-! ## More depth

A run that ends does so with any greater depth, and with the same result. This is needed since the
units get their depths one after the other, while a run has a single one. -/

section Depth

variable {plan : Plan} (hfilters : plan.filters = FilterSet.standard) {d d' : Nat} (hd : d ≤ d')

include hfilters hd

/-- Depth is used only where the operation of a unit is built. -/
theorem processUnit_withDepth {run run' : Run} {unit : Element} {o : Outcome}
    (h : processUnit (plan.withDepth d) run unit = some (o, run')) :
    processUnit (plan.withDepth d') run unit = some (o, run') := by
  cases hof : Endpoint.of? unit with
  | none =>
    obtain ⟨o', -, hprocess⟩ := processUnit_of_no_endpoint hof
    rw [hprocess] at h ⊢
    exact h
  | some endpoint =>
    obtain ⟨path, method⟩ := endpoint
    rw [processUnit_of_endpoint hof, addUnit_eq] at h ⊢
    obtain ⟨x, hbuilt, hsettle⟩ := Option.map_eq_some_iff.1 h
    have hagrees := Comparison.Agrees.buildVariants (C := .self plan.resolver) hfilters unit path
      method (variantsForUnit unit plan.categorizers)
    exact Option.map_eq_some_iff.2 ⟨x, hagrees.within hd _ _ hbuilt, hsettle⟩

/-- The induction is on the units. -/
theorem processUnits_withDepth {run run' : Run} {units : List Element} {outcomes : List Outcome}
    (h : processUnits (plan.withDepth d) units run = some (outcomes, run')) :
    processUnits (plan.withDepth d') units run = some (outcomes, run') := by
  induction units generalizing run outcomes with
  | nil => exact h
  | cons unit rest ih =>
    obtain ⟨o, next, later, hunit, hrest, rfl⟩ := processUnits_cons.1 h
    exact processUnits_cons.2
      ⟨o, next, later, processUnit_withDepth hfilters hd hunit, ih hrest, rfl⟩

theorem generate_withDepth {annotations : Element} {result : GenerationResult}
    (h : (plan.withDepth d).generate annotations = some result) :
    (plan.withDepth d').generate annotations = some result := by
  by_cases hunits : annotations.operations = []
  · unfold Plan.generate at h ⊢
    rw [hunits] at h ⊢
    exact h
  · have hfilters' : ∀ d, (plan.withDepth d).filters = FilterSet.standard := fun _ => hfilters
    obtain ⟨outcomes, run, hrun, rfl⟩ := exists_run_of_generate (hfilters' d) hunits h
    exact generate_of_run (hfilters' d') hunits (processUnits_withDepth hfilters hd hrun)

end Depth

/-! ## Runs that are alike

The memo is left out of `Run.Alike`, and the components must be the same. What a unit is asked about
the documents is whether they have its operation, so these must be the same as well. -/

/-- The two runs agree in all but what their registries know of types. -/
structure Run.Alike (resolver : Resolver) (run run' : Run) : Prop where
  documents : run.documents = run'.documents
  committed : run.committed = run'.committed
  valid : Valid resolver TypeExpr.WellNamed run.registry
  valid' : Valid resolver TypeExpr.WellNamed run'.registry
  components : ∀ v, run.registry.componentsOf v = run'.registry.componentsOf v

variable {plan : Plan} {run run' next : Run} {unit : Element} {o : Outcome}

theorem Run.Alike.refl {resolver : Resolver}
    (h : Valid resolver TypeExpr.WellNamed run.registry) : run.Alike resolver run :=
  ⟨rfl, rfl, h, h, fun _ => rfl⟩

/-- What a commit adds does not depend on the registry. -/
theorem commitAll_eq (run : Run) (unit : Element) (path : String)
    (targets : List (Variant × Operation)) (registry : Registry) :
    Run.commitAll { run with registry := registry } unit path targets =
      { run.commitAll unit path targets with registry := registry } := by
  unfold Run.commitAll
  induction targets generalizing run with
  | nil => rfl
  | cons p rest ih => exact ih (run.commit unit path p.1 p.2)

/-- A unit that was built alike is settled alike: with the same errors, or in the same documents. -/
theorem Run.Alike.settle {resolver : Resolver} {r r' : Registry} (h : run.Alike resolver run')
    (hr : Valid resolver TypeExpr.WellNamed r) (hr' : Valid resolver TypeExpr.WellNamed r')
    (hcomponents : ∀ v, r.componentsOf v = r'.componentsOf v) (hext : Extends run.registry r)
    (hext' : Extends run'.registry r') (path : String) (method : Method) (built : Built) :
    (run.settle unit path method (built, r)).1 = (run'.settle unit path method (built, r')).1 ∧
      (run.settle unit path method (built, r)).2.Alike resolver
        (run'.settle unit path method (built, r')).2 := by
  obtain ⟨registry, documents, committed⟩ := run
  obtain ⟨registry', documents', committed'⟩ := run'
  obtain rfl : documents = documents' := h.documents
  obtain rfl : committed = committed' := h.committed
  unfold Run.settle
  dsimp only
  by_cases hne : built.errors ++
      duplicateErrors documents path method (built.operations.map Prod.fst) ≠ []
  · -- rejected: each run takes back the components that it had, and those were the same
    rw [if_pos hne, if_pos hne]
    exact ⟨rfl, rfl, rfl, h.valid.rollback hr hext, h.valid'.rollback hr' hext', h.components⟩
  · have hcommit := commitAll_eq ⟨{}, documents, committed⟩ unit path
      (firstOfEachVariant built.operations)
    rw [if_neg hne, if_neg hne]
    dsimp only
    rw [hcommit r, hcommit r']
    exact ⟨rfl, rfl, rfl, hr, hr', hcomponents⟩

section Alike

variable (hfilters : plan.filters = FilterSet.standard) (hresolver : plan.resolver.WellNamed)

include hfilters hresolver

/-- A unit that is taken up in one of two runs that are alike is taken up in the other one, with the
same outcome. -/
theorem Run.Alike.processUnit {d : Nat} (h : run.Alike plan.resolver run')
    (hrun : EndpointDocs.processUnit (plan.withDepth d) run unit = some (o, next)) :
    ∃ d' next', EndpointDocs.processUnit (plan.withDepth d') run' unit = some (o, next') ∧
      next.Alike plan.resolver next' := by
  cases hof : Endpoint.of? unit with
  | none =>
    obtain ⟨o', -, hprocess⟩ := processUnit_of_no_endpoint hof
    rw [hprocess] at hrun
    cases hrun
    exact ⟨d, run', hprocess _ _, h⟩
  | some endpoint =>
    obtain ⟨path, method⟩ := endpoint
    rw [processUnit_of_endpoint hof, addUnit_eq] at hrun
    obtain ⟨⟨built, registry⟩, hbuilt, hsettle⟩ := Option.map_eq_some_iff.1 hrun
    have hagrees := Comparison.Agrees.buildVariants (C := .alike hresolver) hfilters unit path
      method (variantsForUnit unit plan.categorizers)
    obtain ⟨d', registry', hbuilt', hpair, hext, hext'⟩ :=
      hagrees.run ⟨h.valid, h.valid', h.components, trivial, trivial⟩ hbuilt
    -- the answers and the errors are the same, so the unit is settled in the same way
    obtain ⟨houtcome, halike⟩ := h.settle hpair.valid hpair.valid' hpair.related hext hext' path
      method built
    rw [hsettle] at houtcome halike
    refine ⟨d', (run'.settle unit path method (built, registry')).2, ?_, halike⟩
    rw [processUnit_of_endpoint hof, addUnit_eq]
    exact Option.map_eq_some_iff.2 ⟨_, hbuilt', Prod.ext houtcome.symm rfl⟩

/-- The induction is on the units; the greatest depth that one of them takes does for all. -/
theorem Run.Alike.processUnits {d : Nat} {units : List Element} {outcomes : List Outcome}
    (h : run.Alike plan.resolver run')
    (hrun : EndpointDocs.processUnits (plan.withDepth d) units run = some (outcomes, next)) :
    ∃ d' next', EndpointDocs.processUnits (plan.withDepth d') units run' = some (outcomes, next') ∧
      next.Alike plan.resolver next' := by
  induction units generalizing run run' outcomes with
  | nil =>
    cases hrun
    exact ⟨d, run', rfl, h⟩
  | cons unit rest ih =>
    obtain ⟨o, middle, later, hunit, hrest, rfl⟩ := processUnits_cons.1 hrun
    obtain ⟨d₁, middle', hunit', hmiddle⟩ := h.processUnit hfilters hresolver hunit
    obtain ⟨d₂, last', hrest', hlast⟩ := ih hmiddle hrest
    -- the greater depth does for both parts
    refine ⟨max d₁ d₂, last', processUnits_cons.2 ⟨o, middle', later, ?_, ?_, rfl⟩, hlast⟩
    · exact processUnit_withDepth hfilters (le_max_left d₁ d₂) hunit'
    · exact processUnits_withDepth hfilters (le_max_right d₁ d₂) hrest'

/-- A rejected unit leaves the run as it was, but for what the registry knows of types. -/
theorem Run.Alike.of_rejected {d : Nat} (h : Valid plan.resolver TypeExpr.WellNamed run.registry)
    (hp : Processed (plan.withDepth d) run unit o next) (ho : o.isSuccess = false) :
    next.Alike plan.resolver run := by
  -- a rollback keeps the memo, and that is still valid
  have hvalid := hp.valid (.any hresolver) hfilters trivial h
  cases hp with
  | unnamed => exact .refl h
  | rejected => exact ⟨rfl, rfl, hvalid, h, fun _ => rfl⟩
  | committed => cases ho

/-- Over all units the rejected one may be left out. -/
theorem processUnits_without_rejected {d : Nat} {before after : List Element}
    {outcomes : List Outcome} {last : Run}
    (hrun : processUnits (plan.withDepth d) (before ++ unit :: after) {} = some (outcomes, last))
    (hrejected : outcomes[before.length]? = some o) (ho : o.isSuccess = false) :
    ∃ d' last', processUnits (plan.withDepth d') (before ++ after) {} =
      some (outcomes.eraseIdx before.length, last') ∧ last.Alike plan.resolver last' := by
  obtain ⟨earlier, middle, rest, hbefore, hrest, rfl⟩ := processUnits_append.1 hrun
  obtain ⟨o', next, later, hunit, hafter, rfl⟩ := processUnits_cons.1 hrest
  have hlength := length_outcomes hbefore
  have hstart : Run.Alike plan.resolver {} {} := .refl .empty
  -- the two runs part behind the units in front
  obtain ⟨_, _, -, hmiddle⟩ := hstart.processUnits hfilters hresolver hbefore
  rw [← hlength, List.getElem?_append_right (le_refl _), Nat.sub_self] at hrejected
  cases hrejected
  have hnext : next.Alike plan.resolver middle :=
    .of_rejected hfilters hresolver hmiddle.valid (processed_of_processUnit hunit) ho
  obtain ⟨d', last', hafter', hlast⟩ := hnext.processUnits hfilters hresolver hafter
  refine ⟨max d d', last', ?_, hlast⟩
  have herase : (earlier ++ o :: later).eraseIdx before.length = earlier ++ later := by
    rw [← hlength, List.eraseIdx_append_of_length_le (le_refl _), Nat.sub_self]
    rfl
  rw [herase]
  refine processUnits_append.2 ⟨earlier, middle, later, ?_, ?_, rfl⟩
  · exact processUnits_withDepth hfilters (le_max_left d d') hbefore
  · exact processUnits_withDepth hfilters (le_max_right d d') hafter'

end Alike

/-- What a document is finished with is the same in runs that are alike. -/
theorem Run.Alike.finished {resolver : Resolver} (h : run.Alike resolver run') :
    plan.finished run = plan.finished run' := by
  funext v d
  unfold Plan.finished Registry.flush
  rw [h.committed, h.components]

/-! ### Whole runs

Documents are finished from what was committed and from the components of their variant, both of
which runs that are alike have in common. -/

/-- There is a run without the rejected unit, with the same documents. -/
theorem exists_generate_without_rejected (plan : Plan)
    (hfilters : plan.filters = FilterSet.standard) (hresolver : plan.resolver.WellNamed) {d i : Nat}
    {annotations others : Element} {result : GenerationResult}
    (hrun : (plan.withDepth d).generate annotations = some result)
    (hrejected : result.outcomes[i]? = some o) (ho : o.isSuccess = false)
    (hothers : others.operations = annotations.operations.eraseIdx i)
    (hne : others.operations ≠ []) :
    ∃ d' result', (plan.withDepth d').generate others = some result' ∧
      result'.documents = result.documents ∧ result'.outcomes = result.outcomes.eraseIdx i := by
  have hfilters' : ∀ d, (plan.withDepth d).filters = FilterSet.standard := fun _ => hfilters
  have hunits : annotations.operations ≠ [] := by
    intro hnil
    rw [hothers, hnil] at hne
    exact hne rfl
  obtain ⟨outcomes, last, hall, rfl⟩ := exists_run_of_generate (hfilters' d) hunits hrun
  have hi : i < annotations.operations.length := by
    rw [← length_outcomes hall]
    exact (List.getElem?_eq_some_iff.1 hrejected).1
  have hsplit : annotations.operations = annotations.operations.take i ++
      annotations.operations[i] :: annotations.operations.drop (i + 1) := by
    rw [← List.drop_eq_getElem_cons hi, List.take_append_drop]
  have hlength : (annotations.operations.take i).length = i :=
    List.length_take_of_le (le_of_lt hi)
  -- the units are split at the rejected one
  rw [hsplit] at hall
  obtain ⟨d', last', hrun', halike⟩ :=
    processUnits_without_rejected hfilters hresolver hall (hlength.symm ▸ hrejected) ho
  rw [← List.eraseIdx_eq_take_drop_succ, ← hothers, hlength] at hrun'
  refine ⟨d', _, generate_of_run (hfilters' d') hne hrun', ?_, rfl⟩
  show last'.documents.mapValues (plan.finished last') =
    last.documents.mapValues (plan.finished last)
  rw [halike.documents, halike.finished]

/-- A rejected unit leaves no trace: without it there are the same documents, and the same outcomes
of all others. -/
theorem generate_without_rejected {settings : Settings} {resolver : Resolver} {depth : Nat}
    {config : Option Element} {annotations others : Element} {result : GenerationResult} {i : Nat}
    (hresolver : resolver.WellNamed)
    (hrun : (Plan.ofConfig .standard settings resolver depth config).generate annotations =
      some result)
    (hrejected : result.outcomes[i]? = some o) (ho : o.isSuccess = false)
    (hothers : others.operations = annotations.operations.eraseIdx i)
    (hne : others.operations ≠ []) :
    (∃ depth' result', (Plan.ofConfig .standard settings resolver depth' config).generate others =
      some result') ∧
    ∀ depth' result', (Plan.ofConfig .standard settings resolver depth' config).generate others =
      some result' →
        result'.documents = result.documents ∧ result'.outcomes = result.outcomes.eraseIdx i := by
  obtain ⟨d, without, hwithout, hdocuments, houtcomes⟩ := exists_generate_without_rejected
    (Plan.ofConfig .standard settings resolver depth config) rfl hresolver hrun hrejected ho hothers
    hne
  refine ⟨⟨d, without, hwithout⟩, fun depth' result' hrun' => ?_⟩
  have hrun'' : ((Plan.ofConfig .standard settings resolver depth config).withDepth
      depth').generate others = some result' := hrun'
  -- both are the run with the greater of the two depths
  have hmore := generate_withDepth rfl (le_max_left d depth') hwithout
  have hmore' := generate_withDepth rfl (le_max_right d depth') hrun''
  rw [hmore] at hmore'
  cases hmore'
  exact ⟨hdocuments, houtcomes⟩

/-- The second unit of the staff is rejected, and there are two others. -/
theorem staff_without_rejected : ∃ result o, staffPlan.generate staff = some result ∧
    result.outcomes[1]? = some o ∧ o.isSuccess = false ∧
      ∃ depth' result', (staffPlan.withDepth depth').generate ⟨"doc", ∅,
        [personUnit "/a" "get" "partners", personUnit "/b" "put" "all"], none⟩ = some result' ∧
          result'.documents = result.documents ∧ result'.outcomes = result.outcomes.eraseIdx 1 := by
  obtain ⟨result, hrun⟩ := generate_staff
  obtain ⟨o, hrejected, ho⟩ := rejected_staff hrun
  -- the second unit is the one left out
  have hothers : (⟨"doc", ∅, [personUnit "/a" "get" "partners", personUnit "/b" "put" "all"],
      none⟩ : Element).operations = staff.operations.eraseIdx 1 := by
    rw [operations_staff]
    decide +kernel
  have hne : (⟨"doc", ∅, [personUnit "/a" "get" "partners", personUnit "/b" "put" "all"],
      none⟩ : Element).operations ≠ [] := by
    rw [hothers, operations_staff]
    exact List.cons_ne_nil _ _
  obtain ⟨⟨depth', result', hwithout⟩, hsame⟩ :=
    generate_without_rejected wellNamed_people hrun hrejected ho hothers hne
  exact ⟨result, o, hrun, hrejected, ho, depth', result', hwithout, hsame depth' result' hwithout⟩

end EndpointDocs
