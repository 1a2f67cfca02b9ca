import EndpointDocs.Proofs.Registry.Extends
import EndpointDocs.Proofs.Registry.Leading

/-!
# What calls leave alone

Whatever a registry holds, registering types changes what is known of types and nothing else
(`respected_grows`). So a call for a variant changes the components of this variant only, and even
there it takes nothing away: a component that the variant has is kept, apart from its example.

What the calls for a variant may do to a registry is an `Effect`. A computation has an effect if
each of its runs leads from one registry to a related one (`Effect.Of`); nothing has to be known of
the registry that it starts on.
-/

namespace EndpointDocs.Registry

open Resolving

variable {resolver : Resolver} {r s q : Registry} {key : String} {v w : Variant} {t : TypeExpr}

/-! ## Effects -/

/-- What calls for a variant may do to a registry. -/
structure Effect (resolver : Resolver) (v : Variant) where
  /-- The examples that may be set, with the keys of their components. -/
  admits : String → Json → Prop
  leads : Registry → Registry → Prop
  refl : ∀ r, leads r r
  trans : ∀ {r s q}, leads r s → leads s q → leads r q
  resolves : ∀ depth t, Leads leads (resolve resolver depth t v)
  injects : ∀ {key sample}, admits key sample → ∀ r, leads r (r.injectSample key v sample).2

namespace Effect

/-- The components of every other variant stay as they are. -/
def elsewhere (resolver : Resolver) (hw : w ≠ v) : Effect resolver v where
  admits _ _ := True
  leads r s := s.componentsOf w = r.componentsOf w
  refl _ := rfl
  trans h h' := h'.trans h
  resolves depth t := by
    refine leads_resolve (R := fun r s => s.componentsOf w = r.componentsOf w) (fun _ => rfl)
      (fun h h' => h'.trans h) (fun u r _ s hrun => ?_) (fun r key => ?_) t
    · exact (respected_grows.register depth u r _ s hrun).componentsOf_eq
    · rw [componentsOf_copyIntoVariant, if_neg hw]
  injects _ r := by
    obtain ⟨-, -, hcomponents⟩ := injectSample_eq r _ v _
    rw [hcomponents, if_neg hw]

/-- A component is kept, apart from an example that was set. -/
def KeptWith (admits : String → Json → Prop) (key : String) (known : Schema) (kept : Schema) :
    Prop :=
  kept = { known with sample := kept.sample } ∧
    (kept.sample = known.sample ∨ ∃ sample, admits key sample ∧ kept.sample = some sample)

theorem KeptWith.refl {admits : String → Json → Prop} (known : Schema) :
    KeptWith admits key known known := by
  refine ⟨?_, .inl rfl⟩
  cases known
  rfl

theorem KeptWith.trans {admits : String → Json → Prop} {known kept last : Schema}
    (h : KeptWith admits key known kept) (h' : KeptWith admits key kept last) :
    KeptWith admits key known last := by
  obtain ⟨hkept, hsample⟩ := h
  obtain ⟨hlast, hsample'⟩ := h'
  refine ⟨?_, ?_⟩
  · rw [hlast, hkept]
  · rcases hsample' with hsame | hset
    · rw [hsame]
      exact hsample
    · exact .inr hset

/-- The components of the variant are kept, apart from the examples that were set. -/
def Keeping (v : Variant) (admits : String → Json → Prop) (r s : Registry) : Prop :=
  ∀ key known, (r.componentsOf v).get? key = some known →
    ∃ kept, (s.componentsOf v).get? key = some kept ∧ KeptWith admits key known kept

theorem Keeping.refl {admits : String → Json → Prop} (r : Registry) : Keeping v admits r r :=
  fun _ known hknown => ⟨known, hknown, .refl known⟩

theorem Keeping.trans {admits : String → Json → Prop} (h : Keeping v admits r s)
    (h' : Keeping v admits s q) : Keeping v admits r q := by
  intro key known hknown
  obtain ⟨kept, hkept, hwith⟩ := h key known hknown
  obtain ⟨last, hlast, hwith'⟩ := h' key kept hkept
  exact ⟨last, hlast, hwith.trans hwith'⟩

/-- The effect of keeping the components of the variant. -/
def keeping (resolver : Resolver) (v : Variant) (admits : String → Json → Prop) :
    Effect resolver v where
  admits := admits
  leads := Keeping v admits
  refl := .refl
  trans := .trans
  resolves depth t := by
    -- a call changes what a variant has only where its components are copied
    refine
      leads_resolve .refl .trans (fun u r _ s hrun => ?_) (fun r key other known hknown => ?_) t
    · intro key known hknown
      refine ⟨known, ?_, .refl known⟩
      rwa [(respected_grows.register depth u r _ s hrun).componentsOf_eq]
    · refine ⟨known, ?_, .refl known⟩
      rw [componentsOf_copyIntoVariant, if_pos rfl]
      exact get?_copyComponents.2 (.inl hknown)
  injects {key sample} hadmits r other known hknown := by
    obtain ⟨-, -, hcomponents⟩ := injectSample_eq r key v sample
    have hcopied : (copyComponents r.memo [key] (r.componentsOf v)).get? other = some known :=
      get?_copyComponents.2 (.inl hknown)
    simp only [hcomponents, if_true, get?_withSample, exemplify, hcopied, Option.map_some,
      Option.some.injEq, exists_eq_left']
    by_cases hkey : other = key
    · rw [if_pos hkey]
      exact ⟨rfl, .inr ⟨sample, hkey ▸ hadmits, rfl⟩⟩
    · rw [if_neg hkey]
      exact .refl known

/-! ## The effect of a computation -/

variable {E : Effect resolver v} {α β : Type}

/-- Every run of the computation has the effect. -/
def Of (E : Effect resolver v) (m : Resolving α) : Prop := Leads E.leads m

namespace Of

theorem pure (a : α) : E.Of (Pure.pure a : Resolving α) := Leads.pure E.refl a

theorem bind {m : Resolving α} {f : α → Resolving β} (h : E.Of m)
    (hf : ∀ a, (∃ r s, m.run r = some (a, s)) → E.Of (f a)) : E.Of (m >>= f) :=
  Leads.bind E.trans h hf

theorem resolve (depth : Nat) (t : TypeExpr) : E.Of (Registry.resolve resolver depth t v) :=
  E.resolves depth t

theorem inject {key : String} {sample : Json} (h : E.admits key sample) :
    E.Of (modifyGet fun r => r.injectSample key v sample : Resolving Bool) := by
  intro r a s hrun
  have hs : (r.injectSample key v sample).2 = s := congrArg Prod.snd (Option.some.inj hrun)
  exact hs ▸ E.injects h r

end Of

end Effect

end EndpointDocs.Registry
