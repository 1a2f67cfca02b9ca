import EndpointDocs.Proofs.Generation.Units

/-!
# Finishing the documents

With the standard filters no document filter meets an error, and all that finishing does to a
document is to give it its title, its servers and the components of its variant (`Plan.finished`).
So a run of a plan is the run over its units, finished at the end (`exists_run_of_generate`).
-/

namespace EndpointDocs

variable {plan : Plan} {run run' : Run} {v : Variant}

/-- A document at the end of a run. -/
def Plan.finished (plan : Plan) (run : Run) (v : Variant) (d : Document) : Document :=
  let units := (run.committed.get? v).getD []
  let info := DocumentInfo.complete plan.settings d.info
  { info := (plan.documentConfig.map fun config =>
      DocumentInfo.configure (DocumentInfo.candidates config v) info).getD info
    servers := (Servers.originsOf units).foldl Servers.addServer d.servers
    paths := d.paths
    components := run.registry.flush v d.components }

/-- A document gets the components of its variant. -/
theorem get?_components_finished {d : Document} (hempty : d.components = ∅) (key : String) :
    (plan.finished run v d).components.get? key = (run.registry.componentsOf v).get? key := by
  show (run.registry.flush v d.components).get? key = _
  rw [Registry.get?_flush, hempty]
  rfl

/-! ### The filters of documents

There are several, one after the other, and each goes over all documents. Since none looks at
another document, they can be put together for each document by itself. -/

theorem finishDocuments_eq (hfilters : plan.filters = FilterSet.standard) :
    finishDocuments plan run = (run.documents.mapValues (plan.finished run), []) := by
  -- the standard filters of documents meet no errors
  have herrors : (run.documents.mapValues
      fun v d => finishDocument plan run v d).values.flatMap Prod.snd = [] := by
    refine List.flatMap_eq_nil_iff.2 fun p hp => ?_
    obtain ⟨v, hv⟩ := KeyMap.mem_values_iff.1 hp
    rw [KeyMap.get?_mapValues] at hv
    obtain ⟨d, -, rfl⟩ := Option.map_eq_some_iff.1 hv
    unfold finishDocument
    rw [hfilters]
    rfl
  unfold finishDocuments
  simp only [herrors]
  cases hconfig : plan.documentConfig with
  | none =>
    refine Prod.ext (KeyMap.ext_get? fun v => ?_) rfl
    simp only [KeyMap.get?_mapValues, Option.map_map]
    refine congrArg (fun f => Option.map f (run.documents.get? v)) (funext fun d => ?_)
    simp only [Function.comp_apply, finishDocument, hfilters, Plan.finished, hconfig]
    rfl
  | some config =>
    rw [hfilters]
    refine Prod.ext (KeyMap.ext_get? fun v => ?_) rfl
    show KeyMap.get? (KeyMap.mapValues (KeyMap.mapValues (KeyMap.mapValues run.documents _) _) _) v
      = _
    simp only [KeyMap.get?_mapValues, Option.map_map]
    refine congrArg (fun f => Option.map f (run.documents.get? v)) (funext fun d => ?_)
    simp only [Function.comp_apply, finishDocument, hfilters, Plan.finished, hconfig]
    rfl

/-! ### The run behind a result

What is proved of runs over units comes to bear on results through these lemmas. -/

/-- Without units there is nothing but a message; else the run over the units is finished. -/
theorem exists_run_of_generate (hfilters : plan.filters = FilterSet.standard)
    {annotations : Element} {result : GenerationResult}
    (hunits : annotations.operations ≠ []) (h : plan.generate annotations = some result) :
    ∃ outcomes run, processUnits plan annotations.operations {} = some (outcomes, run) ∧
      result = ⟨outcomes, run.documents.mapValues (plan.finished run), run.registry⟩ := by
  unfold Plan.generate at h
  split at h
  · next hnil => exact absurd hnil hunits
  · obtain ⟨⟨outcomes, run⟩, hrun, h⟩ := Option.bind_eq_some_iff.1 h
    refine ⟨outcomes, run, hrun, ?_⟩
    simp only [finishDocuments_eq hfilters] at h
    cases h
    rfl

/-- Without a unit there is no document either. -/
theorem documents_of_no_units {annotations : Element} {result : GenerationResult}
    (hunits : annotations.operations = []) (h : plan.generate annotations = some result) :
    result.documents = ∅ := by
  unfold Plan.generate at h
  rw [hunits] at h
  cases h
  rfl

/-- The document of a variant is that of the run over the units, finished. -/
theorem exists_document_of_generate (hfilters : plan.filters = FilterSet.standard)
    {annotations : Element} {result : GenerationResult} {d : Document}
    (h : plan.generate annotations = some result) (hd : result.documents.get? v = some d) :
    ∃ outcomes run d', processUnits plan annotations.operations {} = some (outcomes, run) ∧
      run.documents.get? v = some d' ∧ d = plan.finished run v d' := by
  by_cases hunits : annotations.operations = []
  · rw [documents_of_no_units hunits h] at hd
    cases hd
  · obtain ⟨outcomes, run, hrun, rfl⟩ := exists_run_of_generate hfilters hunits h
    rw [KeyMap.get?_mapValues] at hd
    obtain ⟨d', hd', rfl⟩ := Option.map_eq_some_iff.1 hd
    exact ⟨outcomes, run, d', hrun, hd', rfl⟩

/-- The other way round: a run over the units makes a result. -/
theorem generate_of_run (hfilters : plan.filters = FilterSet.standard) {annotations : Element}
    {outcomes : List Outcome} (hunits : annotations.operations ≠ [])
    (hrun : processUnits plan annotations.operations {} = some (outcomes, run)) :
    plan.generate annotations =
      some ⟨outcomes, run.documents.mapValues (plan.finished run), run.registry⟩ := by
  unfold Plan.generate
  split
  · next hnil => exact absurd hnil hunits
  · simp only [hrun, Option.bind_eq_bind, Option.bind_some, finishDocuments_eq hfilters]
    rfl

end EndpointDocs
