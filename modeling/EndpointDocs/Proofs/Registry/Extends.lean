import EndpointDocs.Proofs.Registry.Answers
import EndpointDocs.Proofs.Registry.Depth
import EndpointDocs.Proofs.Schema.References

/-!
# What a registry keeps

A call takes nothing away from a registry: the memo and the components of every variant only grow
(`Extends`), and what a component or an answer refers to is there (`Valid.refersTo`,
`Resolved.refersTo`). With plain names a type that is resolved on one registry is resolved on every
other one as well (`resolve_on_other`).
-/

namespace EndpointDocs

namespace Registry

variable {resolver : Resolver} {met : TypeExpr → Prop} {r s q : Registry} {key : String}
variable {v : Variant} {t : TypeExpr} {depth : Nat}

/-- The variant has a component of the key. -/
def has (r : Registry) (v : Variant) (key : String) : Prop :=
  ∃ s, (r.componentsOf v).get? key = some s

/-- Nothing that the memo or a variant has is missing in `s`. -/
structure Extends (r s : Registry) : Prop where
  memo : ∀ {key x}, r.memo.get? key = some x → s.memo.get? key = some x
  has : ∀ {v key}, r.has v key → s.has v key

theorem Extends.refl (r : Registry) : Extends r r := ⟨id, id⟩

theorem Extends.trans (h : Extends r s) (h' : Extends s q) : Extends r q :=
  ⟨fun hx => h'.memo (h.memo hx), fun hk => h'.has (h.has hk)⟩

theorem Grows.extends (hg : Grows r s) : Extends r s where
  memo := hg.memo
  has hk := by
    rw [Registry.has, hg.componentsOf_eq]
    exact hk

theorem extends_copyIntoVariant : Extends r (r.copyIntoVariant v key) where
  memo := id
  has {w k} hk := by
    rw [Registry.has, componentsOf_copyIntoVariant]
    split
    · next hw =>
      subst hw
      exact exists_get?_copyComponents.2 (.inl hk)
    · exact hk

theorem extends_injectSample {sample : Json} : Extends r (r.injectSample key v sample).2 := by
  obtain ⟨-, hmemo, hcomponents⟩ := injectSample_eq r key v sample
  refine ⟨fun hx => hmemo ▸ hx, fun {w k} hk => ?_⟩
  rw [Registry.has, hcomponents]
  split
  · next hw =>
    subst hw
    obtain ⟨s, hs⟩ := exists_get?_copyComponents.2 (.inl hk)
    rw [get?_withSample, exemplify, hs]
    exact ⟨_, rfl⟩
  · exact hk

theorem Resolved.extends {answer : Except ResolutionError Schema}
    (h : Resolved resolver met t v r answer s) : Extends r s := by
  cases h with
  | fixed => exact .refl r
  | component ws core c q _ _ hg _ => exact hg.extends.trans extends_copyIntoVariant
  | failed ws core e q _ _ hg _ => exact hg.extends

/-- The answer refers to components that the variant has. -/
theorem Resolved.refersTo {answer : Schema} (h : Resolved resolver met t v r (.ok answer) s) :
    answer.RefersTo (s.has v) := by
  intro ref hr
  cases h with
  | fixed ws schema hpeel =>
    rw [Schema.refs_wrap, refs_of_peel_fixed hpeel] at hr
    cases hr
  | component ws core c q _ _ _ hc =>
    rw [Schema.refs_wrap, Schema.refs_component, List.mem_singleton] at hr
    exact ⟨core.refKey, hr, exists_copyIntoVariant hc⟩

/-- The components of a variant refer to each other only. -/
theorem Valid.refersTo (hr : Valid resolver met r) {s : Schema}
    (hs : (r.componentsOf v).get? key = some s) : s.RefersTo (r.has v) := by
  obtain ⟨c, hc, hfragment, hdeps⟩ := hr.copies v key s hs
  obtain ⟨t, shape, -, -, -, hof, -⟩ := hr.sound.stored hc
  have hrefers : c.RefersToDependencies := hof ▸ Component.refersToDependencies_of t shape
  rw [hfragment]
  refine Schema.RefersTo.with_sample (hrefers.mono fun k hk => ?_) _
  exact hdeps k (KeyMap.mem_keys_iff.2 (KeyMap.contains_iff.1 hk))

/-- Taking back the components of the variants leaves what is known of types. -/
theorem Valid.rollback (hr : Valid resolver met r) (hs : Valid resolver met s)
    (hext : Extends r s) : Valid resolver met (s.restore r.snapshot) :=
  hs.restore fun v => (hr.copies v).grow hext.memo

/-! ## Another registry -/

theorem closed_wellNamed (hresolver : resolver.WellNamed) :
    Closed resolver TypeExpr.WellNamed :=
  fun _ _ _ ht hs hu => hresolver.mentioned hs (TypeExpr.wellNamed_iff.1 ht).2 hu

/-- What a type in the memo mentions is known or in progress. -/
theorem Sound.decided_of_mentioned (hw : ∀ u, met u → u.WellNamed) (hr : Sound resolver met r)
    (ht : t.WellNamed) {x : Except ResolutionError Component}
    (hx : r.memo.get? t.refKey = some x) {shape : Shape} (hs : resolver t.name = some shape) :
    ∀ u ∈ shape.mentioned t.args, r.decided u.refKey := by
  intro u hu
  cases x with
  | error e =>
    have hunknown := (hr.error_eq hw ht hx).1
    rw [Resolver.knows_of_eq_some hs] at hunknown
    cases hunknown
  | ok c =>
    obtain ⟨t', shape', ht', hkey, hs', -, hdecided⟩ := hr.stored hx
    -- the stored type has the same key, so it is the same type
    obtain rfl := TypeExpr.refKey_injective (hw t' ht') ht hkey
    rw [hs] at hs'
    cases hs'
    exact hdecided u hu

/-- What types in the memo mention is in the memo as well. -/
theorem Sound.closed_memo (hp : Closed resolver met) (hw : ∀ u, met u → u.WellNamed)
    (hr : Sound resolver met r) (hidle : r.inProgress = []) :
    Closed resolver fun u => met u ∧ ∃ x, r.memo.get? u.refKey = some x := by
  rintro t shape u ⟨ht, x, hx⟩ hs hu
  refine ⟨hp t shape u ht hs hu, ?_⟩
  rcases hr.decided_of_mentioned hw (hw t ht) hx hs u hu with hmemo | hb
  · exact hmemo
  · rw [hidle] at hb
    cases hb

/-- A type that is resolved on one registry is resolved on every other, with the same answer. The
depth is bounded by what the first registry knows at the end: all that has to be followed. -/
theorem resolve_on_other {r' : Registry} {answer : Except ResolutionError Schema}
    (hresolver : resolver.WellNamed) (ht : t.WellNamed)
    (hr : Valid resolver TypeExpr.WellNamed r) (hr' : Valid resolver TypeExpr.WellNamed r')
    (hrun : (resolve resolver depth t v).run r = some (answer, s)) :
    ∃ depth' s', (resolve resolver depth' t v).run r' = some (answer, s') := by
  have hclosed := closed_wellNamed hresolver
  have hcore : ∀ u ∈ t.core?, u.WellNamed := fun u => TypeExpr.wellNamed_of_core? ht
  have hresolved := resolved_of_run hclosed hcore hr hrun
  have hs := hresolved.valid hr
  have hknown : ∀ u ∈ t.core?, ∃ x, s.memo.get? u.refKey = some x := by
    intro u hu
    rcases hresolved.memo_core u hu with ⟨c, hc⟩ | ⟨e, -, he⟩
    · exact ⟨.ok c, hc⟩
    · exact ⟨.error e, he⟩
  -- all that has to be followed is known to `s`
  have hawaits : Awaits (fun u => u.WellNamed ∧ ∃ x, s.memo.get? u.refKey = some x)
      s.memo.keys r' := fun u hu => .inr (KeyMap.mem_keys_iff.2 hu.2)
  obtain ⟨⟨answer', s'⟩, hrun'⟩ := resolve_returns hclosed
    (hs.sound.closed_memo hclosed (fun _ => id) hs.idle) (fun u hu => hu.1)
    (fun u hu => ⟨hcore u hu, hknown u hu⟩) hr'.sound hawaits v
  have hsame := (hresolved.eq_answer hclosed (fun _ => id) hr hresolver ht).1
  have hsame' := ((resolved_of_run hclosed hcore hr' hrun').eq_answer hclosed (fun _ => id) hr'
    hresolver ht).1
  exact ⟨_, s', hsame.trans hsame'.symm ▸ hrun'⟩

end Registry

end EndpointDocs
