import EndpointDocs.Proofs.Registry.Register

/-!
# Where registering leads

A relation between registries holds across every call of `register` if it is a preorder and holds
across the two ways in which a call changes a registry (`Respected`): a type without a shape is
noted as failed, and a component that was built is stored. Nothing has to be known of the registry,
or of the names of types.
-/

namespace EndpointDocs.Registry

open Resolving

variable {resolver : Resolver} {R : Registry → Registry → Prop}

section Preorder

variable (hrefl : ∀ r, R r r) (htrans : ∀ {r s q}, R r s → R s q → R r q)
variable {reg : Register}

include hrefl htrans

theorem leads_inlineSchema {t : TypeExpr} (h : ∀ u ∈ t.core?, Leads R (reg u))
    (dependencies : Keys) : Leads R (inlineSchema reg t dependencies) := by
  unfold inlineSchema
  split
  · exact .pure hrefl _
  · next ws core hpeel =>
    have hcore := h core (TypeExpr.core?_of_peel_named hpeel)
    refine .bind htrans hcore fun result _ => ?_
    cases result with
    | ok => exact .pure hrefl _
    | error e => exact .pure hrefl _

theorem leads_nestedSchema {t : TypeExpr} (h : ∀ u ∈ t.core?, Leads R (reg u))
    (dependencies : Keys) : Leads R (nestedSchema reg t dependencies) := by
  refine .bind htrans (leads_inlineSchema hrefl htrans h dependencies) fun found _ => ?_
  cases found with
  | ok x => exact .pure hrefl _
  | error e => exact .pure hrefl _

theorem leads_addFields {generics : List String} {args : List TypeExpr} {fields : List FieldShape}
    (h : ∀ u ∈ (Shape.struct generics fields).mentioned args, Leads R (reg u)) (c : Component) :
    Leads R (addFields reg generics args fields c) := by
  induction fields generalizing c with
  | nil => exact .pure hrefl _
  | cons f rest ih =>
    have hfirst := leads_nestedSchema hrefl htrans
      (fun u hu => h u (mem_mentioned_cons.2 (.inl hu))) c.dependencies
    exact .bind htrans hfirst fun _ _ => ih (fun u hu => h u (mem_mentioned_cons.2 (.inr hu))) _

/-- The calls for a component are those for what its shape mentions. -/
theorem leads_componentOf {t : TypeExpr} {shape : Shape}
    (h : ∀ u ∈ shape.mentioned t.args, Leads R (reg u)) : Leads R (componentOf reg t shape) := by
  cases shape with
  | struct generics fields => exact leads_addFields hrefl htrans h _
  | newtype inner =>
    simp only [mem_mentioned_newtype] at h
    exact .bind htrans (leads_nestedSchema hrefl htrans h ∅) fun _ _ => .pure hrefl _
  | enum names => exact .pure hrefl _

/-- A call of `resolve` registers a type and copies components into the variant. -/
theorem leads_resolve {depth : Nat} {v : Variant}
    (hregister : ∀ u, Leads R (register resolver depth u))
    (hcopy : ∀ r key, R r (r.copyIntoVariant v key)) (t : TypeExpr) :
    Leads R (resolve resolver depth t v) := by
  refine .bind htrans (leads_inlineSchema hrefl htrans (fun u _ => hregister u) ∅) fun found _ => ?_
  cases found with
  | error e => exact .pure hrefl _
  | ok x =>
    refine .bind htrans ?_ fun _ _ => .pure hrefl _
    rintro r _ s ⟨⟩
    dsimp only
    generalize x.2.keys = keys
    -- each of the keys is copied into the variant
    induction keys generalizing r with
    | nil => exact hrefl r
    | cons key rest ih => exact htrans (hcopy r key) (ih _)

end Preorder

/-! ## Relations that registering respects -/

structure Respected (R : Registry → Registry → Prop) : Prop where
  refl : ∀ r, R r r
  trans : ∀ {r s q}, R r s → R s q → R r q
  /-- A call ends without a shape. -/
  unknown : ∀ {r key name e}, ¬ r.decided key → R r ((r.start key name).finish key (.error e))
  /-- A call ends with a component, built since it started. -/
  built : ∀ {r q key name c}, ¬ r.decided key → R (r.start key name) q → R r (q.finish key (.ok c))

/-- The induction is on the depth: the calls inside a component are one level less deep. -/
theorem Respected.register (h : Respected R) (depth : Nat) (t : TypeExpr) :
    Leads R (register resolver depth t) := by
  induction depth using Nat.strongRecOn generalizing t with
  | ind depth ih =>
    intro r result s hrun
    cases registered_of_run hrun with
    | known => exact h.refl r
    | failed => exact h.refl r
    | building => exact h.refl r
    | unknown hnew => exact h.unknown hnew
    | built d shape c q hd hnew _ hc =>
      have hcalls : Leads R (componentOf (Registry.register resolver d) t shape) :=
        leads_componentOf h.refl h.trans fun u _ => ih d (by omega) u
      exact h.built hnew (hcalls _ c q hc)

/-- Whatever the registry holds, its memo only grows. -/
theorem respected_grows : Respected Grows where
  refl := .refl
  trans := .trans
  unknown hnew := grows_fail hnew
  built hnew h := h.finish hnew

end EndpointDocs.Registry
