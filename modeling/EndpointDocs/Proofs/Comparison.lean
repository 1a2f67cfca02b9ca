import EndpointDocs.Proofs.ReadTypes
import EndpointDocs.Proofs.Registry.Extends
import EndpointDocs.Tags.Media

/-!
# One computation on two registries

What a computation answers does not depend on what the registry has seen before. To say so, it is
run on two registries: if it ends on the one, it ends on the other with the same answer, given
enough depth, and what related the two registries relates them still (`Agrees`). The rules are those
of a Hoare logic, with a precondition and a postcondition that both registries satisfy.

What relates the registries is a `Comparison`. A registry can be compared with itself
(`Comparison.self`), which leaves the part about one run and asks nothing of the names; with plain
names, with one that has the same components in all variants (`Comparison.alike`) or in one of them
(`Comparison.alikeAt`), or with any other one (`Comparison.any`).
-/

namespace EndpointDocs

open Registry Resolving

/-- A relation between registries that the calls of a registry keep. -/
structure Comparison (resolver : Resolver) where
  /-- The types that may be met. -/
  met : TypeExpr → Prop
  related : Registry → Registry → Prop
  -- what a type depends on may be met as well
  closed : Closed resolver met
  met_of_text : ∀ {source t}, Source.typeExpr? source = some t → ∀ u ∈ t.core?, met u
  resolve : ∀ {source t v depth r r' answer s}, Source.typeExpr? source = some t →
    Valid resolver met r → Valid resolver met r' → related r r' →
    (Registry.resolve resolver depth t v).run r = some (answer, s) →
    ∃ depth' s', (Registry.resolve resolver depth' t v).run r' = some (answer, s') ∧ related s s'
  inject : ∀ {key v r r'} (sample : Json), Valid resolver met r → Valid resolver met r' →
    related r r' → r.has v key → r'.has v key →
    related (r.injectSample key v sample).2 (r'.injectSample key v sample).2

namespace Comparison

variable {resolver : Resolver}

/-- A registry compared with itself. -/
def self (resolver : Resolver) : Comparison resolver where
  met _ := True
  related := Eq
  closed _ _ _ _ _ _ := trivial
  met_of_text _ _ _ := trivial
  resolve := by
    rintro _ _ _ depth r _ _ s - - - rfl hrun
    exact ⟨depth, s, hrun, rfl⟩
  inject := by
    rintro _ _ _ _ _ - - rfl - -
    rfl

/-- Two registries that may be quite different. -/
def any (hresolver : resolver.WellNamed) : Comparison resolver where
  met := TypeExpr.WellNamed
  related _ _ := True
  closed := closed_wellNamed hresolver
  met_of_text ht _ := TypeExpr.wellNamed_of_core? (Source.wellNamed_of_typeExpr? ht)
  resolve ht hr hr' _ hrun := by
    obtain ⟨depth', s', hrun'⟩ :=
      resolve_on_other hresolver (Source.wellNamed_of_typeExpr? ht) hr hr' hrun
    exact ⟨depth', s', hrun', trivial⟩
  inject _ _ _ _ _ _ := trivial

section Components

variable {r r' s s' : Registry} {v w : Variant} {key : String}
variable (hresolver : resolver.WellNamed) (hr : Valid resolver TypeExpr.WellNamed r)
variable (hr' : Valid resolver TypeExpr.WellNamed r')

include hresolver hr hr'

/-! ### What a call does to the components

A valid registry is determined by what it was asked: the components of a variant behind a call are
those before it, and those that the answer needs (`Resolved.eq_answer`). So registries that agree
before a call agree behind it, whatever their memos hold. -/

/-- A variant with the same components in two registries is supplied with the same ones. -/
theorem componentsOf_resolve {t : TypeExpr} {depth depth' : Nat}
    {answer answer' : Except ResolutionError Schema} (ht : t.WellNamed)
    (hsame : r.componentsOf w = r'.componentsOf w)
    (hrun : (Registry.resolve resolver depth t v).run r = some (answer, s))
    (hrun' : (Registry.resolve resolver depth' t v).run r' = some (answer', s')) :
    s.componentsOf w = s'.componentsOf w := by
  have hcore : ∀ u ∈ t.core?, u.WellNamed := fun u => TypeExpr.wellNamed_of_core? ht
  have hclosed := closed_wellNamed hresolver
  have hs := ((resolved_of_run hclosed hcore hr hrun).eq_answer hclosed (fun _ => id) hr
    hresolver ht).2 w
  have hs' := ((resolved_of_run hclosed hcore hr' hrun').eq_answer hclosed (fun _ => id) hr'
    hresolver ht).2 w
  refine KeyMap.ext_get? fun key => ?_
  rw [hs, hs']
  by_cases hw : w = v
  · subst hw
    rw [hsame]
  · rw [if_neg hw, if_neg hw, hsame]

omit hresolver hr hr' in
/-- The component is there already, so nothing is copied and the example is all that is new. -/
theorem componentsOf_injectSample (sample : Json) (hsame : r.componentsOf w = r'.componentsOf w)
    (hk : r.has v key) (hk' : r'.has v key) :
    (r.injectSample key v sample).2.componentsOf w =
      (r'.injectSample key v sample).2.componentsOf w := by
  obtain ⟨-, -, hs⟩ := injectSample_eq r key v sample
  obtain ⟨-, -, hs'⟩ := injectSample_eq r' key v sample
  rw [hs, hs', copyComponents_of_has hk, copyComponents_of_has hk']
  by_cases hw : w = v
  · subst hw
    rw [hsame]
  · rw [if_neg hw, if_neg hw, hsame]

omit hr' in
/-- A variant has what it had before, and all that the type needs. -/
theorem has_resolve {t : TypeExpr} {depth : Nat} {answer : Except ResolutionError Schema}
    (ht : t.WellNamed) (hrun : (Registry.resolve resolver depth t v).run r = some (answer, s)) :
    s.has w key ↔ r.has w key ∨
      w = v ∧ ∃ core ∈ t.core?, ∃ c, resolver.reached? core key = some c := by
  have hcore : ∀ u ∈ t.core?, u.WellNamed := fun u => TypeExpr.wellNamed_of_core? ht
  have hclosed := closed_wellNamed hresolver
  have hs := ((resolved_of_run hclosed hcore hr hrun).eq_answer hclosed (fun _ => id) hr
    hresolver ht).2 w
  unfold Registry.has
  rw [hs]
  by_cases hw : w = v
  · subst hw
    rw [if_pos rfl, Resolver.exists_supplyFor]
    exact or_congr_right (and_iff_right rfl).symm
  · rw [if_neg hw]
    exact (or_iff_left fun h => hw h.1).symm

omit hresolver hr hr' in
/-- An example for a component that is there brings no other one. -/
theorem has_injectSample {other : String} (sample : Json) (hk : r.has v key) :
    (r.injectSample key v sample).2.has w other ↔ r.has w other := by
  obtain ⟨-, -, hs⟩ := injectSample_eq r key v sample
  unfold Registry.has
  rw [hs, copyComponents_of_has hk]
  by_cases hw : w = v
  · subst hw
    rw [if_pos rfl, get?_withSample, exemplify]
    simp
  · rw [if_neg hw]

end Components

/-! ### Comparisons

The ones that are used: the theorems on rejected units, on the order of units, on the categories of
units and on the configuration each compare two runs in another way. -/

/-- Two registries with the same components, whatever they know of other types. -/
def alike (hresolver : resolver.WellNamed) : Comparison resolver where
  met := TypeExpr.WellNamed
  related r r' := ∀ v, r.componentsOf v = r'.componentsOf v
  closed := closed_wellNamed hresolver
  met_of_text ht _ := TypeExpr.wellNamed_of_core? (Source.wellNamed_of_typeExpr? ht)
  resolve htext hr hr' hsame hrun := by
    have ht := Source.wellNamed_of_typeExpr? htext
    obtain ⟨depth', s', hrun'⟩ := resolve_on_other hresolver ht hr hr' hrun
    refine ⟨depth', s', hrun', fun w => ?_⟩
    exact componentsOf_resolve hresolver hr hr' ht (hsame w) hrun hrun'
  inject sample _ _ hsame hk hk' w := componentsOf_injectSample sample (hsame w) hk hk'

/-- Two registries that give one variant the same components. -/
def alikeAt (hresolver : resolver.WellNamed) (v : Variant) : Comparison resolver where
  met := TypeExpr.WellNamed
  related r r' := r.componentsOf v = r'.componentsOf v
  closed := closed_wellNamed hresolver
  met_of_text ht _ := TypeExpr.wellNamed_of_core? (Source.wellNamed_of_typeExpr? ht)
  resolve htext hr hr' hsame hrun := by
    have ht := Source.wellNamed_of_typeExpr? htext
    obtain ⟨depth', s', hrun'⟩ := resolve_on_other hresolver ht hr hr' hrun
    exact ⟨depth', s', hrun', componentsOf_resolve hresolver hr hr' ht hsame hrun hrun'⟩
  inject sample _ _ hsame hk hk' := componentsOf_injectSample sample hsame hk hk'

/-- The first registry has what the second one has, and the given components besides. -/
def beside (hresolver : resolver.WellNamed) (others : Variant → String → Prop) :
    Comparison resolver where
  met := TypeExpr.WellNamed
  related r r' := ∀ v key, r.has v key ↔ others v key ∨ r'.has v key
  closed := closed_wellNamed hresolver
  met_of_text ht _ := TypeExpr.wellNamed_of_core? (Source.wellNamed_of_typeExpr? ht)
  resolve htext hr hr' hbeside hrun := by
    have ht := Source.wellNamed_of_typeExpr? htext
    obtain ⟨depth', s', hrun'⟩ := resolve_on_other hresolver ht hr hr' hrun
    refine ⟨depth', s', hrun', fun w key => ?_⟩
    rw [has_resolve hresolver hr ht hrun, has_resolve hresolver hr' ht hrun', hbeside, or_assoc]
  inject sample _ _ hbeside hk hk' w key := by
    rw [has_injectSample sample hk, has_injectSample sample hk', hbeside]

/-! ## The logic

A computation is given for every depth, as the two runs may need different ones. The answers are
equal, not just related: an answer is a schema or an error, and these must not depend on what the
registry has seen. -/

variable (C : Comparison resolver) {α β : Type}

/-- Two registries that are compared, both with the property `pre`. -/
structure Pair (pre : Registry → Prop) (r r' : Registry) : Prop where
  valid : Valid resolver C.met r
  valid' : Valid resolver C.met r'
  related : C.related r r'
  holds : pre r
  holds' : pre r'

/-- The computations `M d`, each with more depth than those before, agree on the two registries. -/
structure Agrees (pre : Registry → Prop) (M : Nat → Resolving α)
    (post : α → Registry → Prop) : Prop where
  within : ∀ {d d'}, d ≤ d' → Within (M d) (M d')
  run : ∀ {d r r' a s}, C.Pair pre r r' → (M d).run r = some (a, s) →
    ∃ d' s', (M d').run r' = some (a, s') ∧ C.Pair (post a) s s' ∧ Extends r s ∧ Extends r' s'

variable {C} {pre : Registry → Prop} {M : Nat → Resolving α} {post : α → Registry → Prop}

theorem Pair.weaken {pre' : Registry → Prop} {r r' : Registry} (h : C.Pair pre r r')
    (hpre : ∀ r, pre r → pre' r) : C.Pair pre' r r' :=
  ⟨h.valid, h.valid', h.related, hpre r h.holds, hpre r' h.holds'⟩

namespace Agrees

theorem pure {a : α} (h : ∀ r, pre r → post a r) :
    C.Agrees pre (fun _ => (Pure.pure a : Resolving α)) post where
  within _ := .refl _
  run {d r r' b s} hpair hrun := by
    obtain ⟨rfl, rfl⟩ := run_pure_eq_some.1 hrun
    exact ⟨d, r', rfl, hpair.weaken h, .refl r, .refl r'⟩

/-- Each of the two parts has a depth of its own on the second registry; the greater one does for
both. -/
theorem bind {mid : α → Registry → Prop} {F : α → Nat → Resolving β}
    {post : β → Registry → Prop} (h : C.Agrees pre M mid)
    (hF : ∀ a, C.Agrees (mid a) (F a) post) :
    C.Agrees pre (fun d => M d >>= fun a => F a d) post where
  within hd := .bind (h.within hd) fun a => (hF a).within hd
  run {d r r' b s} hpair hrun := by
    obtain ⟨a, q, hm, hf⟩ := run_bind_eq_some.1 hrun
    obtain ⟨d₁, q', hm', hmid, hext, hext'⟩ := h.run hpair hm
    obtain ⟨d₂, s', hf', hpost, hmore, hmore'⟩ := (hF a).run hmid hf
    refine ⟨max d₁ d₂, s', run_bind_eq_some.2 ⟨a, q', ?_, ?_⟩, hpost, hext.trans hmore,
      hext'.trans hmore'⟩
    · exact h.within (le_max_left d₁ d₂) r' _ hm'
    · exact (hF a).within (le_max_right d₁ d₂) q' _ hf'

/-- More may be known beforehand. -/
theorem weaken {pre' : Registry → Prop} (h : C.Agrees pre M post)
    (hpre : ∀ r, pre' r → pre r) : C.Agrees pre' M post where
  within := h.within
  run hpair hrun := h.run (hpair.weaken hpre) hrun

/-- What growing registries keep may be known in addition. -/
theorem frame (h : C.Agrees pre M post) (known : Registry → Prop)
    (hknown : ∀ r s, Extends r s → known r → known s) :
    C.Agrees (fun r => pre r ∧ known r) M fun a r => post a r ∧ known r where
  within := h.within
  run {d r r' a s} hpair hrun := by
    obtain ⟨d', s', hrun', hpost, hext, hext'⟩ := h.run (hpair.weaken fun _ => And.left) hrun
    exact ⟨d', s', hrun', ⟨hpost.valid, hpost.valid', hpost.related,
      ⟨hpost.holds, hknown r s hext hpair.holds.2⟩,
      ⟨hpost.holds', hknown r' s' hext' hpair.holds'.2⟩⟩, hext, hext'⟩

/-- The case without a precondition, in which only the addition is asked for. -/
theorem alongside {known : Registry → Prop} (h : C.Agrees (fun _ => True) M post)
    (hknown : ∀ r s, Extends r s → known r → known s) :
    C.Agrees known M fun a r => post a r ∧ known r :=
  (h.frame known hknown).weaken fun _ hk => ⟨trivial, hk⟩

/-- What agrees on a registry and itself says something about one run. -/
theorem single {d : Nat} {r s : Registry} {a : α} (h : C.Agrees pre M post) (hrefl : C.related r r)
    (hr : Valid resolver C.met r) (hpre : pre r) (hrun : (M d).run r = some (a, s)) :
    Valid resolver C.met s ∧ Extends r s ∧ post a s := by
  obtain ⟨_, _, -, hpair, hext, -⟩ := h.run ⟨hr, hr, hrefl, hpre, hpre⟩ hrun
  exact ⟨hpair.valid, hext, hpair.holds⟩

/-- A type of a text is resolved with the same answer, and the variants have what it refers to. -/
theorem resolve {source : String} {t : TypeExpr} (ht : Source.typeExpr? source = some t)
    (v : Variant) :
    C.Agrees (fun _ => True) (fun d => Registry.resolve resolver d t v)
      fun answer r => ∀ s, answer = .ok s → s.RefersTo (r.has v) where
  within hd := resolve_within hd t v
  run {d r r' answer s} hpair hrun := by
    have hmet := C.met_of_text ht
    obtain ⟨d', s', hrun', hrelated⟩ :=
      C.resolve ht hpair.valid hpair.valid' hpair.related hrun
    have hresolved := resolved_of_run C.closed hmet hpair.valid hrun
    have hresolved' := resolved_of_run C.closed hmet hpair.valid' hrun'
    refine ⟨d', s', hrun', ⟨hresolved.valid hpair.valid, hresolved'.valid hpair.valid', hrelated,
      ?_, ?_⟩, hresolved.extends, hresolved'.extends⟩
    · rintro answer rfl
      exact hresolved.refersTo
    · rintro answer rfl
      exact hresolved'.refersTo

/-- An example for a component that both variants have. -/
theorem inject {v : Variant} {key : String} (sample : Json) :
    C.Agrees (fun r => r.has v key)
      (fun _ => (modifyGet fun r => r.injectSample key v sample : Resolving Bool))
      fun _ _ => True where
  within _ := .refl _
  run {d r r' answer s} hpair hrun := by
    have hrun_eq : ∀ r : Registry,
        (modifyGet fun r => r.injectSample key v sample : Resolving Bool).run r =
          some (r.injectSample key v sample) := fun _ => rfl
    -- the variant has the component, so nothing is copied and the answer is `true`
    have hfound : ∀ r : Registry, r.has v key →
        r.injectSample key v sample = (true, (r.injectSample key v sample).2) := by
      intro r hk
      obtain ⟨hanswer, -, -⟩ := injectSample_eq r key v sample
      obtain ⟨s, hs⟩ := hk
      refine Prod.ext ?_ rfl
      rw [hanswer, copyComponents_of_has ⟨s, hs⟩, hs, Option.isSome_some]
    rw [hrun_eq, hfound r hpair.holds] at hrun
    obtain ⟨rfl, hs⟩ := Prod.mk.inj (Option.some.inj hrun)
    subst hs
    refine ⟨d, (r'.injectSample key v sample).2, ?_, ⟨hpair.valid.injectSample,
      hpair.valid'.injectSample, C.inject sample hpair.valid hpair.valid' hpair.related hpair.holds
      hpair.holds', trivial, trivial⟩, extends_injectSample, extends_injectSample⟩
    rw [hrun_eq, ← hfound r' hpair.holds']

end Agrees

end Comparison

end EndpointDocs
