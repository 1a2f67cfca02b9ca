import EndpointDocs.Proofs.Registry.Calls
import EndpointDocs.Proofs.TypeKey

/-!
# What the answers of a registry depend on

If the names of all types are plain, a key belongs to one type only (`TypeExpr.refKey_injective`).
Then the memo has no say: what it holds for a type is `Resolver.component?`, and what `resolve`
gives a variant is what the type reaches (`Resolver.supply`), whatever was resolved before and
wherever the type was met first.

`Closed` and `WellNamed` are the two conditions that come up everywhere: what a type mentions is
among the types that are considered, and their keys tell them apart.
-/

namespace EndpointDocs

namespace Resolver

variable (resolver : Resolver)

/-- The answer for a type from the resolver alone. -/
def answer (t : TypeExpr) : Except ResolutionError Schema :=
  match t.peel with
  | (ws, .fixed s) => .ok (wrap ws s)
  | (ws, .named core) =>
    if resolver.knows core then .ok (wrap ws (.component core.refKey))
    else .error ⟨core.refKey, .unknownType core⟩

/-- The component of a type that is reached from `t` and has the given key. -/
noncomputable def reached? (t : TypeExpr) (key : String) : Option Component :=
  open Classical in
  if h : ∃ u, resolver.Reaches t u ∧ u.refKey = key then resolver.component? h.choose else none

/-- Add to components all that is reached from `t`, keeping what is there. -/
noncomputable def supply (t : TypeExpr) (components : String → Option Schema) :
    String → Option Schema :=
  fun key => (components key).or ((resolver.reached? t key).map Component.fragment)

/-- Add what a type needs, which is nothing if it has a schema of its own. -/
noncomputable def supplyFor (t : TypeExpr) (components : String → Option Schema) :
    String → Option Schema :=
  match t.core? with
  | none => components
  | some core => resolver.supply core components

variable {resolver} {t u : TypeExpr} {key : String} {c : Component}

/-- The component is the one of the type with this key, as there is no other one. -/
theorem reached?_eq_some (hresolver : resolver.WellNamed) (ht : t.WellNamed) :
    resolver.reached? t key = some c ↔
      ∃ u, resolver.Reaches t u ∧ u.refKey = key ∧ resolver.component? u = some c := by
  unfold reached?
  constructor
  · intro h
    split at h
    · next hex => exact ⟨hex.choose, hex.choose_spec.1, hex.choose_spec.2, h⟩
    · cases h
  · rintro ⟨u, hu, rfl, hc⟩
    have hex : ∃ u', resolver.Reaches t u' ∧ u'.refKey = u.refKey := ⟨u, hu, rfl⟩
    have hsame : hex.choose = u :=
      TypeExpr.refKey_injective (hex.choose_spec.1.wellNamed hresolver ht)
        (hu.wellNamed hresolver ht) hex.choose_spec.2
    rw [dif_pos hex, hsame, hc]

theorem knows_eq_false : resolver.knows t = false ↔ resolver t.name = none := by
  rw [knows, Option.isSome_eq_false_iff, Option.isNone_iff_eq_none]

theorem knows_of_component? (h : resolver.component? t = some c) : resolver.knows t = true := by
  obtain ⟨shape, hs, -⟩ := component?_eq_some.1 h
  exact knows_of_eq_some hs

/-- Nothing is reached from an unknown type. -/
theorem reached?_of_unknown (h : resolver.knows t = false) : resolver.reached? t key = none := by
  have hnone := knows_eq_false.1 h
  unfold reached?
  split
  · next hex =>
    obtain ⟨hreach, -⟩ := hex.choose_spec
    rcases Relation.ReflTransGen.cases_head hreach with he | ⟨_, ⟨shape, hs, -⟩, -⟩
    · rw [← he, component?, hnone, Option.map_none]
    · rw [hnone] at hs
      cases hs
  · rfl

theorem supply_of_unknown (h : resolver.knows t = false) (components : String → Option Schema) :
    resolver.supply t components = components := by
  funext key
  rw [supply, reached?_of_unknown h, Option.map_none, Option.or_none]

/-- A type has no answer if the named type in it is unknown. -/
theorem knows_of_answer_error {e : ResolutionError} (h : resolver.answer t = .error e) :
    ∀ u ∈ t.core?, resolver.knows u = false := by
  intro u hu
  unfold answer at h
  split at h
  · cases h
  · next ws core hpeel =>
    rw [TypeExpr.core?_of_peel_named hpeel] at hu
    cases hu
    split at h
    · cases h
    · next hk => exact (Bool.not_eq_true _).mp hk

theorem supplyFor_of_answer_error {e : ResolutionError} (h : resolver.answer t = .error e)
    (components : String → Option Schema) : resolver.supplyFor t components = components := by
  unfold supplyFor
  split
  · rfl
  · next core hcore =>
    exact supply_of_unknown (knows_of_answer_error h core hcore) components

/-- A key that is supplied was there, or it is reached from the named type. -/
theorem exists_supplyFor {components : String → Option Schema} :
    (∃ s, resolver.supplyFor t components key = some s) ↔
      (∃ s, components key = some s) ∨
        ∃ core ∈ t.core?, ∃ c, resolver.reached? core key = some c := by
  unfold supplyFor
  cases t.core? with
  | none => simp
  | some core =>
    simp only [supply, Option.or_eq_some_iff, Option.map_eq_some_iff, Option.mem_some_iff,
      exists_eq_left', exists_or]
    cases components key with
    | none => simp
    | some s => simp

end Resolver

namespace Registry

variable {resolver : Resolver} {p : TypeExpr → Prop} {r s q : Registry} {key : String}
variable {v w : Variant} {t u : TypeExpr} {c : Component} {depth : Nat}

section WellNamed

variable (hp : Closed resolver p) (hw : ∀ u, p u → u.WellNamed)

include hw

/-! ## The memo

A registry that is sound holds components as its own knowledge gives them. For types with plain
names that knowledge is the truth about the resolver, so the components are those of the resolver.
-/

/-- The registry has a component of a type that it met exactly if the resolver has a shape. -/
theorem Sound.hasComponent_eq (hr : Sound resolver p r) (hu : u.WellNamed)
    (hd : r.decided u.refKey) : r.hasComponent u.refKey = resolver.knows u := by
  cases hm : r.memo.get? u.refKey with
  | some x =>
    cases x with
    | ok c =>
      obtain ⟨t, shape, ht, hkey, hs, -⟩ := hr.stored hm
      obtain rfl := TypeExpr.refKey_injective (hw t ht) hu hkey
      rw [hasComponent_of_ok hm, Resolver.knows_of_eq_some hs]
    | error e =>
      obtain ⟨t, ht, hkey, hs, -⟩ := hr.failed hm
      obtain rfl := TypeExpr.refKey_injective (hw t ht) hu hkey
      rw [hasComponent_of_error hm, Resolver.knows_eq_false.2 hs]
  | none =>
    -- a key is in progress only if its type has a shape
    have hb := mem_inProgress_of_decided hd hm
    obtain ⟨-, t, ht, hkey, hk⟩ := hr.building hb
    obtain rfl := TypeExpr.refKey_injective (hw t ht) hu hkey
    rw [hasComponent_of_none hm, decide_eq_true hb, hk]

/-- What failed is not known to the resolver. -/
theorem Sound.error_eq (hr : Sound resolver p r) (ht : t.WellNamed) {e : ResolutionError}
    (h : r.memo.get? t.refKey = some (.error e)) :
    resolver.knows t = false ∧ e = ⟨t.refKey, .unknownType t⟩ := by
  obtain ⟨t', ht', hkey, hs, rfl⟩ := hr.failed h
  obtain rfl := TypeExpr.refKey_injective (hw t' ht') ht hkey
  exact ⟨Resolver.knows_eq_false.2 hs, rfl⟩

include hp

/-- What the memo holds for a type is what the type and its shape give. -/
theorem Sound.component?_eq (hr : Sound resolver p r) (ht : t.WellNamed)
    (h : r.memo.get? t.refKey = some (.ok c)) : resolver.component? t = some c := by
  obtain ⟨t', shape, ht', hkey, hs, rfl, hd⟩ := hr.stored h
  obtain rfl := TypeExpr.refKey_injective (hw t' ht') ht hkey
  refine Resolver.component?_eq_some.2 ⟨shape, hs, Component.of_congr fun u hu => ?_⟩
  exact (hr.hasComponent_eq hw (hw u (hp _ shape u ht' hs hu)) (hd u hu)).symm

/-! ## Reaching

From keys to types: what the memo has under the keys of dependencies is what the types reach by
being used in each other. -/

/-- The dependencies of a component are the keys of the types that its type uses. -/
theorem Sound.dependsOn_iff (hr : Sound resolver p r) (ht : t.WellNamed)
    (h : r.memo.get? t.refKey = some (.ok c)) :
    DependsOn r.memo t.refKey key ↔ ∃ u, resolver.Uses t u ∧ u.refKey = key := by
  obtain ⟨shape, hs, hof⟩ := Resolver.component?_eq_some.1 (hr.component?_eq hp hw ht h)
  have hdeps : key ∈ c.dependencies.keys ↔ ∃ u, resolver.Uses t u ∧ u.refKey = key := by
    rw [KeyMap.mem_keys_iff, ← KeyMap.contains_iff, ← hof, Component.contains_dependencies]
    simp only [Resolver.Uses, hs, Option.some.injEq, exists_eq_left', and_assoc]
  rw [← hdeps]
  constructor
  · rintro ⟨c', hc', hk⟩
    rw [h] at hc'
    cases hc'
    exact hk
  · exact fun hk => ⟨c, h, hk⟩

/-- What a type in the memo reaches is reached and in the memo as well. -/
theorem Sound.path_of_reaches (hr : Sound resolver p r) (hidle : r.inProgress = [])
    (hresolver : resolver.WellNamed) (ht : t.WellNamed)
    (h : r.memo.get? t.refKey = some (.ok c)) (hreach : resolver.Reaches t u) :
    Relation.ReflTransGen (DependsOn r.memo) t.refKey u.refKey ∧
      ∃ d, r.memo.get? u.refKey = some (.ok d) := by
  induction hreach with
  | refl => exact ⟨.refl, c, h⟩
  | @tail u u' hreach huses ih =>
    obtain ⟨hpath, d, hd⟩ := ih
    have hu : u.WellNamed := Resolver.Reaches.wellNamed hresolver ht hreach
    have hstep : DependsOn r.memo u.refKey u'.refKey :=
      (hr.dependsOn_iff hp hw hu hd).2 ⟨u', huses, rfl⟩
    obtain ⟨c', hc', hdep⟩ := hstep
    exact ⟨hpath.tail ⟨c', hc', hdep⟩, hr.complete hidle _ c' hc' _ hdep⟩

/-- The keys reached in the memo are those of the types that are reached. -/
theorem Sound.reaches_iff (hr : Sound resolver p r) (hidle : r.inProgress = [])
    (hresolver : resolver.WellNamed) (ht : t.WellNamed)
    (h : r.memo.get? t.refKey = some (.ok c)) :
    Relation.ReflTransGen (DependsOn r.memo) t.refKey key ↔
      ∃ u, resolver.Reaches t u ∧ u.refKey = key := by
  constructor
  · intro hpath
    -- a step between keys of the memo is a step between the types of these keys
    induction hpath with
    | refl => exact ⟨t, .refl, rfl⟩
    | tail _ hstep ih =>
      obtain ⟨u, hu, rfl⟩ := ih
      obtain ⟨-, d, hd⟩ := hr.path_of_reaches hp hw hidle hresolver ht h hu
      obtain ⟨u', huses, hkey⟩ :=
        (hr.dependsOn_iff hp hw (hu.wellNamed hresolver ht) hd).1 hstep
      exact ⟨u', hu.tail huses, hkey⟩
  · rintro ⟨u, hu, rfl⟩
    exact (hr.path_of_reaches hp hw hidle hresolver ht h hu).1

/-- Copying a component into a variant supplies all that its type reaches. -/
theorem Valid.get?_copyComponents (hr : Valid resolver p r) (hresolver : resolver.WellNamed)
    (ht : t.WellNamed) (h : r.memo.get? t.refKey = some (.ok c)) :
    (copyComponents r.memo [t.refKey] (r.componentsOf v)).get? key =
      resolver.supply t (r.componentsOf v).get? key := by
  refine Option.ext fun s => ?_
  rw [Registry.get?_copyComponents, Resolver.supply, Option.or_eq_some_iff,
    Option.map_eq_some_iff]
  simp only [copied_iff (hr.copies v), hr.sound.reaches_iff hp hw hr.idle hresolver ht h,
    Resolver.reached?_eq_some hresolver ht]
  refine or_congr_right ⟨?_, ?_⟩
  · rintro ⟨d, ⟨⟨hd, hnone⟩, u, hu, rfl⟩, rfl⟩
    have hcomponent := hr.sound.component?_eq hp hw (hu.wellNamed hresolver ht) hd
    exact ⟨hnone, d, ⟨u, hu, rfl, hcomponent⟩, rfl⟩
  · rintro ⟨hnone, d, ⟨u, hu, rfl, hd⟩, rfl⟩
    -- what is reached is in the memo, with the component that its type gives
    obtain ⟨-, d', hd'⟩ := hr.sound.path_of_reaches hp hw hr.idle hresolver ht h hu
    have hcomponent := hr.sound.component?_eq hp hw (hu.wellNamed hresolver ht) hd'
    rw [hd] at hcomponent
    cases hcomponent
    exact ⟨d, ⟨⟨hd', hnone⟩, u, hu, rfl⟩, rfl⟩

/-! ## Calls

What a call does to the variants, told by the resolver alone. The memo of the registry has dropped
out of every statement from here on. -/

theorem Valid.copyIntoVariant_eq (hr : Valid resolver p r) (hresolver : resolver.WellNamed)
    (ht : t.WellNamed) (h : r.memo.get? t.refKey = some (.ok c)) :
    ((r.copyIntoVariant v t.refKey).componentsOf w).get? =
      if w = v then resolver.supply t (r.componentsOf v).get? else (r.componentsOf w).get? := by
  rw [componentsOf_copyIntoVariant]
  split
  · exact funext fun key => hr.get?_copyComponents hp hw hresolver ht h
  · rfl

/-- A type is resolved as if nothing had been resolved before. -/
theorem Resolved.eq_answer (hr : Valid resolver p r) (hresolver : resolver.WellNamed)
    (ht : t.WellNamed) {answer : Except ResolutionError Schema}
    (h : Resolved resolver p t v r answer s) :
    answer = resolver.answer t ∧ ∀ w, (s.componentsOf w).get? =
      if w = v then resolver.supplyFor t (r.componentsOf v).get?
      else (r.componentsOf w).get? := by
  cases h with
  | fixed ws schema hpeel =>
    refine ⟨by rw [Resolver.answer, hpeel], fun w => ?_⟩
    rw [Resolver.supplyFor, TypeExpr.core?_of_peel_fixed hpeel]
    split
    · next hwv => rw [hwv]
    · rfl
  | component ws core c q hpeel hq hg hc =>
    have hcore := TypeExpr.core?_of_peel_named hpeel
    have hnamed := TypeExpr.wellNamed_of_core? ht hcore
    have hknown := Resolver.knows_of_component? (hq.component?_eq hp hw hnamed hc)
    refine ⟨by rw [Resolver.answer, hpeel]; exact (if_pos hknown).symm, fun w => ?_⟩
    rw [(hr.grow hq hg).copyIntoVariant_eq hp hw hresolver hnamed hc, Resolver.supplyFor, hcore,
      hg.componentsOf_eq, hg.componentsOf_eq]
  -- a type that failed is reached by nothing, so nothing is supplied for it
  | failed ws core e q hpeel hq hg he =>
    have hcore := TypeExpr.core?_of_peel_named hpeel
    have hnamed := TypeExpr.wellNamed_of_core? ht hcore
    obtain ⟨hunknown, rfl⟩ := hq.error_eq hw hnamed he
    refine ⟨by rw [Resolver.answer, hpeel]; simp only [hunknown, Bool.false_eq_true, if_false],
      fun w => ?_⟩
    rw [Resolver.supplyFor, hcore, hg.componentsOf_eq]
    split
    · next hwv => exact hwv ▸ (Resolver.supply_of_unknown hunknown _).symm
    · rfl

end WellNamed

/-! ### Examples

An example goes to the component of a key in one variant. If the memo has the component, it is
copied to the variant first. -/

/-- Components with an example for one of them. -/
def exemplify (key : String) (sample : Json) (components : String → Option Schema) :
    String → Option Schema :=
  fun k => (components k).map fun s => if k = key then { s with sample := some sample } else s

theorem get?_withSample {schemas : KeyMap String Schema} {sample : Json} :
    (withSample schemas key sample).get? = exemplify key sample schemas.get? := by
  funext k
  unfold withSample exemplify
  split
  · next s hs =>
    rw [KeyMap.get?_insert]
    by_cases hk : k = key
    · subst hk
      rw [if_pos rfl, hs, Option.map_some, if_pos rfl]
    · simp only [if_neg hk, Option.map_id']
  · next hs =>
    by_cases hk : k = key
    · rw [hk, hs, Option.map_none]
    · simp only [if_neg hk, Option.map_id']

/-- The example of a component in the memo is set, whichever components the variant has so far. -/
theorem Valid.injectSample_of_ok (hp : Closed resolver p) (hw : ∀ u, p u → u.WellNamed)
    (hr : Valid resolver p r) (hresolver : resolver.WellNamed) (ht : t.WellNamed)
    (h : r.memo.get? t.refKey = some (.ok c)) (v : Variant) (sample : Json) :
    (r.injectSample t.refKey v sample).1 = true ∧
      ∀ w, ((r.injectSample t.refKey v sample).2.componentsOf w).get? =
        if w = v then exemplify t.refKey sample (resolver.supply t (r.componentsOf v).get?)
        else (r.componentsOf w).get? := by
  obtain ⟨hanswer, -, hcomponents⟩ := injectSample_eq r t.refKey v sample
  -- what is copied is what the resolver supplies for the type
  have hsupply : (copyComponents r.memo [t.refKey] (r.componentsOf v)).get? =
      resolver.supply t (r.componentsOf v).get? :=
    funext fun key => hr.get?_copyComponents hp hw hresolver ht h
  constructor
  · obtain ⟨s, hs⟩ := exists_copyIntoVariant (v := v) h
    rw [componentsOf_copyIntoVariant, if_pos rfl] at hs
    rw [hanswer, hs, Option.isSome_some]
  · intro w
    rw [hcomponents]
    split
    · rw [get?_withSample, hsupply]
    · rfl

/-- No example is set without a component, and nothing changes. -/
theorem Valid.injectSample_of_not_ok (hr : Valid resolver p r)
    (h : ∀ c, r.memo.get? key ≠ some (.ok c)) (v : Variant) (sample : Json) :
    (r.injectSample key v sample).1 = false ∧
      ∀ w, ((r.injectSample key v sample).2.componentsOf w).get? = (r.componentsOf w).get? := by
  obtain ⟨hanswer, -, hcomponents⟩ := injectSample_eq r key v sample
  have hnone : (r.componentsOf v).get? key = none := by
    cases hs : (r.componentsOf v).get? key with
    | none => rfl
    | some s =>
      obtain ⟨c, hc, -⟩ := hr.copies v key s hs
      exact absurd hc (h c)
  -- the only pending key is not fresh, so nothing is copied
  have hsame : copyComponents r.memo [key] (r.componentsOf v) = r.componentsOf v := by
    refine KeyMap.ext_get? fun k => Option.ext fun s => ?_
    rw [Registry.get?_copyComponents]
    refine or_iff_left ?_
    rintro ⟨c, hcopied, -⟩
    induction hcopied with
    | pending hk hf => exact h _ (List.mem_singleton.1 hk ▸ hf.1)
    | dependency _ _ _ ih => exact ih
  rw [hsame] at hanswer hcomponents
  refine ⟨by rw [hanswer, hnone, Option.isSome_none], fun w => ?_⟩
  rw [hcomponents]
  split
  · next hwv => rw [withSample, hnone, hwv]
  · rfl

end Registry

end EndpointDocs
