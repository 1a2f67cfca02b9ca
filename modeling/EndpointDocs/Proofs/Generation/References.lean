import EndpointDocs.Proofs.Generation.Returning

/-!
# No dangling reference

Every reference in a document names a component of the same document. During a run the operations of
a document refer to components of their variant in the registry (`RunRefersTo`): a unit that is
committed brings its components along, one that is rejected takes its own back only, and the
components of a variant refer to each other. At the end each document gets the components of its
variant.
-/

namespace EndpointDocs

open Registry Resolving

/-- Every reference in the document, in its operations and in its components, names a component of
the document. -/
structure Document.RefersToComponents (d : Document) : Prop where
  operations : ∀ path method op, d.operation? path method = some op →
    op.RefersTo fun key => d.components.contains key = true
  components : ∀ key s, d.components.get? key = some s →
    s.RefersTo fun key => d.components.contains key = true

/-- What holds between two units of a run. -/
structure RunRefersTo (plan : Plan) (run : Run) : Prop where
  valid : Valid plan.resolver (fun _ => True) run.registry
  documents : ∀ v d, run.documents.get? v = some d → d.components = ∅ ∧
    ∀ path method op, d.operation? path method = some op → op.RefersTo (run.registry.has v)

variable {plan : Plan} {run run' : Run} {unit : Element} {o : Outcome}

theorem RunRefersTo.start : RunRefersTo plan {} where
  valid := .empty
  documents _ _ hd := nomatch hd

/-- One unit: committed, rejected or not looked at. -/
theorem RunRefersTo.processed (hfilters : plan.filters = FilterSet.standard)
    (h : RunRefersTo plan run) (hp : Processed plan run unit o run') : RunRefersTo plan run' := by
  have hvalid := hp.valid (.self plan.resolver) hfilters rfl h.valid
  cases hp with
  | unnamed => exact h
  | rejected => exact ⟨hvalid, h.documents⟩
  | committed path method built registry message _ hbuilt =>
    have hagrees := Comparison.Agrees.buildVariants (C := .self plan.resolver) hfilters unit path
      method (variantsForUnit unit plan.categorizers)
    obtain ⟨-, hext, hsketch⟩ := hagrees.single (d := plan.depth) rfl h.valid trivial hbuilt
    have hregistry : (Run.commitAll { run with registry := registry } unit path
        (firstOfEachVariant built.operations)).registry = registry := registry_commitAll
    refine ⟨hvalid, fun v d hd => ?_⟩
    rw [hregistry]
    rw [get?_documents_commitAll nodup_firstOfEachVariant] at hd
    have hold : ∀ d, run.documents.get? v = some d → d.components = ∅ ∧
        ∀ path method op, d.operation? path method = some op → op.RefersTo (registry.has v) := by
      intro d hd
      obtain ⟨hempty, hops⟩ := h.documents v d hd
      exact ⟨hempty, fun path method op hop => (hops path method op hop).mono fun _ => hext.has⟩
    cases hfind : Entries.find? v (firstOfEachVariant built.operations) with
    | none =>
      rw [hfind] at hd
      exact hold d hd
    | some op =>
      rw [hfind] at hd
      cases hd
      have hmem := mem_of_mem_firstOfEachVariant (Entries.mem_of_find?_eq_some hfind)
      have hop := (hsketch _ hmem).refersTo
      -- the new operation refers to what it brought, the others to what was there
      have hbefore : ((run.documents.get? v).getD {}).components = ∅ ∧
          ∀ path method op, ((run.documents.get? v).getD {}).operation? path method = some op →
            op.RefersTo (registry.has v) := by
        cases hv : run.documents.get? v with
        | none => exact ⟨rfl, fun path method op hop => nomatch hop⟩
        | some d => exact hold d hv
      refine ⟨hbefore.1, fun other method' op' hop' => ?_⟩
      rw [Document.operation?_addOperation] at hop'
      split at hop'
      · cases hop'
        exact hop
      · exact hbefore.2 other method' op' hop'

/-- The components of a finished document are those of its variant. -/
theorem RunRefersTo.finished (h : RunRefersTo plan run) {v : Variant} {d : Document}
    (hd : run.documents.get? v = some d) : (plan.finished run v d).RefersToComponents := by
  obtain ⟨hempty, hops⟩ := h.documents v d hd
  have hget : ∀ key, (plan.finished run v d).components.get? key =
      (run.registry.componentsOf v).get? key := get?_components_finished hempty
  have hhas : ∀ key, run.registry.has v key →
      (plan.finished run v d).components.contains key = true := by
    intro key hk
    rw [KeyMap.contains_iff]
    simp only [hget]
    exact hk
  refine ⟨fun path method op hop => (hops path method op hop).mono hhas, fun key s hs => ?_⟩
  rw [hget] at hs
  exact (h.valid.refersTo hs).mono hhas

/-- No generated document has a dangling reference. -/
theorem refersToComponents_of_generate {settings : Settings} {resolver : Resolver} {depth : Nat}
    {config : Option Element} {annotations : Element} {result : GenerationResult}
    (hrun : (Plan.ofConfig .standard settings resolver depth config).generate annotations =
      some result) :
    ∀ v d, result.documents.get? v = some d → d.RefersToComponents := by
  intro v d hd
  by_cases hunits : annotations.operations = []
  · have hempty : result.documents = ∅ := by
      unfold Plan.generate at hrun
      rw [hunits] at hrun
      cases hrun
      rfl
    rw [hempty] at hd
    cases hd
  · obtain ⟨outcomes, run, hunits, rfl⟩ := exists_run_of_generate rfl hunits hrun
    rw [KeyMap.get?_mapValues] at hd
    obtain ⟨_, hd', rfl⟩ := Option.map_eq_some_iff.1 hd
    have hrefers := holds_of_processUnits (fun _ => RunRefersTo _)
      (fun h hp => h.processed rfl hp) .start hunits
    exact hrefers.finished hd'

theorem refersToComponents_staff : ∃ result, staffPlan.generate staff = some result ∧
    ∀ v d, result.documents.get? v = some d → d.RefersToComponents := by
  obtain ⟨result, hrun⟩ := generate_staff
  exact ⟨result, hrun, refersToComponents_of_generate hrun⟩

end EndpointDocs
