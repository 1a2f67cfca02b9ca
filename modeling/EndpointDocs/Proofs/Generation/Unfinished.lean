import EndpointDocs.Proofs.Generation.Units

/-!
# Documents before they are finished

During a run a document holds operations only: title, servers and components come at the end
(`Document.Unfinished`). Beside the documents the run lists the units of each, which are the
successful units of its variant in the order in which they came (`RunLists`).

A path is listed for an operation only, so two unfinished documents with the same operations have
the same paths (`Document.Unfinished.paths_eq`).
-/

namespace EndpointDocs

open Registry

/-! ## Documents -/

/-- A document in which there is nothing but operations. -/
structure Document.Unfinished (d : Document) : Prop where
  info : d.info = {}
  servers : d.servers = []
  components : d.components = ∅
  /-- No path is without an operation. -/
  items : ∀ path item, d.paths.get? path = some item → ∃ method op, item.get? method = some op

namespace Document.Unfinished

variable {d d' : Document}

theorem empty : ({} : Document).Unfinished := ⟨rfl, rfl, rfl, fun _ _ h => nomatch h⟩

theorem addOperation (h : d.Unfinished) (path : String) (op : Operation) :
    (d.addOperation path op).Unfinished where
  info := h.info
  servers := h.servers
  components := h.components
  items other item hitem := by
    have hget : (d.addOperation path op).paths.get? other =
        if other = path then some (((d.paths.get? path).getD ∅).insert op.method op)
        else d.paths.get? other := KeyMap.get?_alter _ _ _ _
    rw [hget] at hitem
    split at hitem
    · cases hitem
      exact ⟨op.method, op, by rw [KeyMap.get?_insert, if_pos rfl]⟩
    · exact h.items other item hitem

/-- A path that one document lists is listed by every other one with the same operations. -/
theorem get?_paths_eq (h : d.Unfinished)
    (hops : ∀ path method, d.operation? path method = d'.operation? path method) {path : String}
    {item : PathItem} (hitem : d.paths.get? path = some item) :
    d'.paths.get? path = some item := by
  have hsame : ∀ method, item.get? method = (d'.paths.get? path).bind (·.get? method) := by
    intro method
    have hop := hops path method
    unfold Document.operation? at hop
    rw [← hop, hitem, Option.bind_some]
  cases hitem' : d'.paths.get? path with
  -- a path item that is there has an operation, so it is missing in neither
  | none =>
    obtain ⟨method, op, hop⟩ := h.items path item hitem
    rw [hsame, hitem', Option.bind_none] at hop
    cases hop
  | some item' =>
    rw [hitem'] at hsame
    exact congrArg some (KeyMap.ext_get? hsame).symm

theorem paths_eq (h : d.Unfinished) (h' : d'.Unfinished)
    (hops : ∀ path method, d.operation? path method = d'.operation? path method) :
    d.paths = d'.paths := by
  refine KeyMap.ext_get? fun path => Option.ext fun item => ?_
  exact ⟨h.get?_paths_eq hops, h'.get?_paths_eq fun path method => (hops path method).symm⟩

end Document.Unfinished

/-! ## Runs -/

/-- The units with a success for a variant, in order. -/
def listedUnits (plan : Plan) (history : List (Element × Outcome)) (v : Variant) : List Element :=
  (history.filter fun p => p.2.isSuccess && v ∈ variantsForUnit p.1 plan.categorizers).map Prod.fst

/-- No document of the run is finished. -/
def Run.Unfinished (run : Run) : Prop := ∀ v d, run.documents.get? v = some d → d.Unfinished

/-- A run lists the units of each variant. The registry is kept valid along, which gives that a unit
without errors is built for all of its variants. -/
structure RunLists (plan : Plan) (history : List (Element × Outcome)) (run : Run) : Prop where
  valid : Valid plan.resolver TypeExpr.WellNamed run.registry
  committed : ∀ v, (run.committed.get? v).getD [] = listedUnits plan history v

variable {plan : Plan} {history : List (Element × Outcome)} {run run' : Run} {unit : Element}
variable {o : Outcome} {v : Variant}

/-- Whatever becomes of a unit, at most operations are added to documents. -/
theorem Processed.unfinished (hp : Processed plan run unit o run') (h : run.Unfinished) :
    run'.Unfinished := by
  cases hp with
  | unnamed => exact h
  | rejected => exact h
  | committed path method built registry =>
    intro v d hd
    rw [get?_documents_commitAll nodup_firstOfEachVariant] at hd
    -- a variant without a document starts with an unfinished one
    have hold : ((run.documents.get? v).getD {}).Unfinished := by
      cases hv : run.documents.get? v with
      | none => exact .empty
      | some d => exact h v d hv
    cases hfind : Entries.find? v (firstOfEachVariant built.operations) with
    | none =>
      rw [hfind] at hd
      exact h v d hd
    | some op =>
      rw [hfind] at hd
      cases hd
      exact hold.addOperation path op

theorem unfinished_of_processUnits {units : List Element} {outcomes : List Outcome}
    (h : processUnits plan units {} = some (outcomes, run)) : run.Unfinished := by
  have hstart : ({} : Run).Unfinished := fun _ _ hd => nomatch hd
  exact holds_of_processUnits (fun _ => Run.Unfinished) (fun h hp => hp.unfinished h) hstart h

theorem RunLists.start : RunLists plan [] {} where
  valid := .empty
  committed _ := rfl

theorem listedUnits_of_failure (ho : o.isSuccess = false) :
    listedUnits plan (history ++ [(unit, o)]) v = listedUnits plan history v := by
  simp [listedUnits, List.filter_append, ho]

theorem listedUnits_of_success (ho : o.isSuccess = true) :
    listedUnits plan (history ++ [(unit, o)]) v = listedUnits plan history v ++
      if v ∈ variantsForUnit unit plan.categorizers then [unit] else [] := by
  unfold listedUnits
  rw [List.filter_append, List.map_append]
  by_cases hv : v ∈ variantsForUnit unit plan.categorizers
  · simp [ho, hv]
  · simp [ho, hv]

section Step

variable (hfilters : plan.filters = FilterSet.standard) (hresolver : plan.resolver.WellNamed)

include hfilters hresolver

theorem RunLists.processed (h : RunLists plan history run)
    (hp : Processed plan run unit o run') : RunLists plan (history ++ [(unit, o)]) run' := by
  have hvalid := hp.valid (.any hresolver) hfilters trivial h.valid
  refine ⟨hvalid, fun v => ?_⟩
  cases hp with
  | unnamed _ _ ho =>
    rw [listedUnits_of_failure ho]
    exact h.committed v
  | rejected =>
    rw [listedUnits_of_failure rfl]
    exact h.committed v
  | committed path method built registry message hof hbuilt herrors =>
    obtain ⟨-, hvariants, -⟩ := built_of_run hfilters hresolver h.valid hbuilt
    -- all variants were built, as there was no error
    have hlisted : v ∈ (firstOfEachVariant built.operations).map Prod.fst ↔
        v ∈ variantsForUnit unit plan.categorizers := by
      rw [mem_keys_firstOfEachVariant, hvariants herrors]
    rw [listedUnits_of_success rfl, ← h.committed,
      get?_committed_commitAll nodup_firstOfEachVariant]
    by_cases hv : v ∈ variantsForUnit unit plan.categorizers
    · rw [if_pos hv, if_pos (hlisted.2 hv), Option.getD_some]
    · rw [if_neg hv, if_neg fun h => hv (hlisted.1 h), List.append_nil]

end Step

end EndpointDocs
