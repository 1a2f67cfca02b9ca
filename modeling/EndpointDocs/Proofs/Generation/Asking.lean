import EndpointDocs.Proofs.Generation.Returning
import EndpointDocs.Proofs.Registry.Asking
import EndpointDocs.Proofs.Tags.Effects

/-!
# A run puts calls to its registry

Filters of operations that reach the registry through its calls only (`FilterSet.CallsOnly`), as the
standard ones do, make a run of a plan a sequence of calls: building a unit is one, and rejecting it
goes back to a snapshot. So what calls keep, a run keeps, however many variants and rejected units
there are. Above all the resolver is asked for no key twice.
-/

namespace EndpointDocs

open Registry Resolving

/-- Filters of operations that put calls to the registry and change nothing else of it. -/
structure FilterSet.CallsOnly (filters : FilterSet) (resolver : Resolver) : Prop where
  operation : ∀ f ∈ filters.operation, ∀ scope : Scope, scope.resolver = resolver →
    ∀ unit op, Leads (CalledOn resolver) (f.apply scope unit op)
  operationConfig : ∀ f ∈ filters.operationConfig, ∀ scope : Scope, scope.resolver = resolver →
    ∀ config item, Leads (CalledOn resolver) (f.apply scope filters.operation config item)

/-! ### Runs as sequences of calls

Calls compose, so putting them is an effect like others. That the standard filters have it is the
only thing that is proved about them here; filters of another kind are as good if they have it. -/

/-- The effect of putting calls. -/
def Registry.Effect.calling (resolver : Resolver) (v : Variant) : Effect resolver v where
  admits _ _ := True
  leads := CalledOn resolver
  refl _ := .refl
  trans := .trans
  resolves depth t r answer s hrun := by
    refine .single ⟨depth, .resolve t v, .resolved answer, [], [], ?_⟩
    simp only [Session.perform, hrun]
    rfl
  injects {key sample} _ r :=
    .single ⟨0, .inject key v sample, .injected (r.injectSample key v sample).1, [], [], rfl⟩

/-- All that the standard filters do to the registry is to resolve types and to set examples. -/
theorem FilterSet.callsOnly_standard (resolver : Resolver) :
    FilterSet.standard.CallsOnly resolver := by
  have hoperation : ∀ f ∈ FilterSet.standard.operation, ∀ scope : Scope,
      scope.resolver = resolver → ∀ unit op, Leads (CalledOn resolver) (f.apply scope unit op) := by
    rintro f hf scope rfl unit op
    exact Effect.Of.standardFilter (E := .calling scope.resolver scope.variant) scope hf
      (fun _ _ _ _ _ => trivial) op
  refine ⟨hoperation, ?_⟩
  rintro f hf scope rfl config item
  rw [List.mem_singleton.1 hf]
  exact Effect.Of.commonAnnotations (E := .calling scope.resolver scope.variant) scope
    (fun f hf op => hoperation f hf scope rfl _ op) item

section Run

variable {plan : Plan} {unit : Element} {path : String} {method : Method}

variable (hfilters : plan.filters.CallsOnly plan.resolver)

include hfilters

/-- The induction is on the variants, whose calls come one after the other. -/
theorem calledOn_buildVariants (variants : List Variant) :
    Leads (CalledOn plan.resolver) (buildVariants plan unit path method variants) := by
  have hrefl : ∀ r, CalledOn plan.resolver r r := fun _ => .refl
  have htrans : ∀ {r s q}, CalledOn plan.resolver r s → CalledOn plan.resolver s q →
      CalledOn plan.resolver r q := .trans
  induction variants with
  | nil => exact .pure hrefl _
  | cons v rest ih =>
    have hbuild : Leads (CalledOn plan.resolver) (buildOperation plan unit path method v) :=
      Effect.Of.buildOperation_of_filters (E := .calling plan.resolver v)
        (fun f hf => hfilters.operation f hf _ rfl unit)
        (fun config _ f hf => hfilters.operationConfig f hf _ rfl config)
    refine .bind htrans hbuild fun result _ => .bind htrans ih fun later _ => ?_
    cases result with
    | ok op => exact .pure hrefl _
    | error errors => exact .pure hrefl _

/-- Taking up a unit puts calls; a rejected one ends with going back. -/
theorem Processed.calledOn {run run' : Run} {o : Outcome} (h : Processed plan run unit o run') :
    CalledOn plan.resolver run.registry run'.registry := by
  cases h with
  | unnamed => exact .refl
  | rejected path method built registry errors _ hbuilt =>
    refine (calledOn_buildVariants hfilters _ _ _ _ hbuilt).tail ?_
    exact ⟨0, .restore 0, .done, [run.registry.snapshot], [run.registry.snapshot], rfl⟩
  | committed path method built registry message _ hbuilt =>
    rw [registry_commitAll]
    exact calledOn_buildVariants hfilters _ _ _ _ hbuilt

/-- Units are taken up with calls, and documents are finished without any. -/
theorem calledOn_generate {annotations : Element} {result : GenerationResult}
    (h : plan.generate annotations = some result) :
    CalledOn plan.resolver {} result.registry := by
  unfold Plan.generate at h
  split at h
  · cases h
    exact .refl
  · obtain ⟨⟨outcomes, run⟩, hrun, hfinish⟩ := Option.bind_eq_some_iff.1 h
    have hcalled := holds_of_processUnits
      (fun _ run => CalledOn plan.resolver {} run.registry)
      (fun hbefore hp => hbefore.trans (hp.calledOn hfilters)) .refl hrun
    -- finishing the documents reads the registry and nothing else
    dsimp only at hfinish
    split at hfinish
    · cases hfinish
      exact hcalled
    · cases hfinish
      exact hcalled

end Run

/-- Whatever its shapes and the names of types, the resolver is asked at most once for each key: in
every session, inside a call that is put behind it and need not return, and in every run of a plan.
Between two calls no key is in progress. -/
theorem asked_at_most_once (resolver : Resolver) :
    (∀ depth calls answers session, Session.run resolver depth calls {} = some (answers, session) →
      session.registry.asked.Nodup ∧ session.registry.inProgress = [] ∧
        ∀ t q, Asks resolver t session.registry q → q.asked.Nodup) ∧
    ∀ (plan : Plan) (annotations : Element) (result : GenerationResult),
      plan.resolver = resolver → plan.filters.CallsOnly resolver →
        plan.generate annotations = some result →
          result.registry.asked.Nodup ∧ result.registry.inProgress = [] := by
  constructor
  · intro depth calls answers session hrun
    have hasking := (calledOn_of_run hrun).asking
    -- nothing was asked for before the first call
    have honce := hasking.once .empty
    exact ⟨honce.nodup, hasking.inProgress, fun t q hasks => (hasks.once honce).nodup⟩
  · rintro plan annotations result rfl hfilters hrun
    have hasking := (calledOn_generate hfilters hrun).asking
    exact ⟨(hasking.once .empty).nodup, hasking.inProgress⟩

/-- Keys that are met many times are asked for once. -/
theorem asked_at_most_once_linkedLists :
    (∃ answers session, Session.run linkedLists 3 linkedListCalls {} = some (answers, session) ∧
      session.registry.asked = ["Node.Color", "Color", "Missing"] ∧
      session.registry.asked.Nodup ∧ session.registry.inProgress = []) ∧
    ∃ result, staffPlan.generate staff = some result ∧ result.registry.asked.Nodup ∧
      result.registry.inProgress = [] := by
  constructor
  · have hasked : (Session.run linkedLists 3 linkedListCalls {}).map
        (fun p => p.2.registry.asked) = some ["Node.Color", "Color", "Missing"] := by
      simp only [linkedListCalls, Session.run, Session.perform_inject]
      decide +kernel
    obtain ⟨⟨answers, session⟩, hrun, hsession⟩ := Option.map_eq_some_iff.1 hasked
    obtain ⟨hnodup, hidle, -⟩ := (asked_at_most_once linkedLists).1 3 linkedListCalls _ _ hrun
    exact ⟨answers, session, hrun, hsession, hnodup, hidle⟩
  · obtain ⟨result, hrun⟩ := generate_staff
    exact ⟨result, hrun, (asked_at_most_once people).2 staffPlan staff result rfl
      (FilterSet.callsOnly_standard people) hrun⟩

end EndpointDocs
