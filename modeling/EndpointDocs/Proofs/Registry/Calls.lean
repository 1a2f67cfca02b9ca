import EndpointDocs.Proofs.Registry.Copying
import EndpointDocs.Proofs.Registry.Register

/-!
# Calls of a registry

Between two calls no key is in progress, and the copies of every variant are complete (`Valid`). A
call of `resolve` registers the type and copies its component into the variant, or answers why it
has none (`Resolved`). Every call keeps a registry valid, and so does going back to the components
of an earlier time: the memo that they come from has only grown since.
-/

namespace EndpointDocs.Registry

open Resolving

variable {resolver : Resolver} {p : TypeExpr → Prop} {r s q : Registry} {key : String}
variable {v w : Variant} {t : TypeExpr} {depth : Nat}

/-- The registry between two calls. -/
structure Valid (resolver : Resolver) (p : TypeExpr → Prop) (r : Registry) : Prop where
  sound : Sound resolver p r
  idle : r.inProgress = []
  copies : ∀ v, Copies r.memo (r.componentsOf v)

/-- Nothing is known, and nothing is in progress. -/
theorem Valid.empty : Valid resolver p {} where
  sound := ⟨(fun hb => by cases hb), (fun he => by cases he), (fun hc => by cases hc)⟩
  idle := rfl
  copies _ := .empty

/-! ## The memo

When no key is in progress, a key counts as having a component only if the component is there. -/

/-- A key in progress would count as well, but there is none. -/
theorem hasComponent_iff (hidle : r.inProgress = []) :
    r.hasComponent key = true ↔ ∃ c, r.memo.get? key = some (.ok c) := by
  cases hm : r.memo.get? key with
  | none => simp [hasComponent_of_none hm, hidle]
  | some x =>
    cases x with
    | ok c => simp [hasComponent_of_ok hm]
    | error e => simp [hasComponent_of_error hm]

/-- What a component depends on has a component of its own. -/
theorem Sound.complete (hr : Sound resolver p r) (hidle : r.inProgress = []) :
    Memo.Complete r.memo := by
  intro key c hc dep hd
  obtain ⟨t, shape, -, -, -, rfl, -⟩ := hr.stored hc
  have hcontains := KeyMap.contains_iff.2 (KeyMap.mem_keys_iff.1 hd)
  obtain ⟨u, -, hu, rfl⟩ := Component.contains_dependencies.1 hcontains
  exact (hasComponent_iff hidle).1 hu

/-! ## Copying into a variant

Copies are taken from the memo as a whole: with a component goes all that it depends on. That the
memo is complete is what makes the copies of a variant complete. -/

/-- Other variants keep their components. -/
theorem componentsOf_insert {schemas : KeyMap String Schema} :
    ({ r with variants := r.variants.insert v schemas } : Registry).componentsOf w =
      if w = v then schemas else r.componentsOf w := by
  unfold componentsOf
  rw [KeyMap.get?_insert]
  split <;> rfl

theorem componentsOf_copyIntoVariant :
    (r.copyIntoVariant v key).componentsOf w =
      if w = v then copyComponents r.memo [key] (r.componentsOf v) else r.componentsOf w :=
  componentsOf_insert

/-- New components for one variant. -/
theorem Valid.update {schemas : KeyMap String Schema} (hr : Valid resolver p r)
    (hs : Copies r.memo schemas) :
    Valid resolver p { r with variants := r.variants.insert v schemas } where
  sound := ⟨hr.sound.building, hr.sound.failed, hr.sound.stored⟩
  idle := hr.idle
  copies w := by
    rw [componentsOf_insert]
    split
    · exact hs
    · exact hr.copies w

/-- What is copied is complete, since the memo is. -/
theorem Valid.copyIntoVariant (hr : Valid resolver p r) (v : Variant) (key : String) :
    Valid resolver p (r.copyIntoVariant v key) :=
  hr.update ((hr.copies v).copy (hr.sound.complete hr.idle))

/-- A component that is in the memo is in the variant behind copying. -/
theorem exists_copyIntoVariant {c : Component} (hc : r.memo.get? key = some (.ok c)) :
    ∃ s, ((r.copyIntoVariant v key).componentsOf v).get? key = some s := by
  rw [componentsOf_copyIntoVariant, if_pos rfl, exists_get?_copyComponents]
  cases hs : (r.componentsOf v).get? key with
  | some s => exact .inl ⟨s, rfl⟩
  | none => exact .inr ⟨c, .pending (List.mem_singleton_self key) ⟨hc, hs⟩⟩

/-! ## Resolving

A call has three ways to end. The cases of `Resolved` carry what each leaves behind, and the lemmas
about calls are proved by going through them. -/

/-- What a call of `resolve` may do. -/
inductive Resolved (resolver : Resolver) (p : TypeExpr → Prop) (t : TypeExpr) (v : Variant)
    (r : Registry) : Except ResolutionError Schema → Registry → Prop where
  /-- The type has a schema of its own. -/
  | fixed (ws : List Wrapper) (schema : Schema) (hpeel : t.peel = (ws, .fixed schema)) :
      Resolved resolver p t v r (.ok (wrap ws schema)) r
  /-- The type is in the variant now. -/
  | component (ws : List Wrapper) (core : TypeExpr) (c : Component) (q : Registry)
      (hpeel : t.peel = (ws, .named core)) (hq : Sound resolver p q) (hg : Grows r q)
      (hc : q.memo.get? core.refKey = some (.ok c)) :
      Resolved resolver p t v r (.ok (wrap ws (.component core.refKey)))
        (q.copyIntoVariant v core.refKey)
  | failed (ws : List Wrapper) (core : TypeExpr) (e : ResolutionError) (q : Registry)
      (hpeel : t.peel = (ws, .named core)) (hq : Sound resolver p q) (hg : Grows r q)
      (he : q.memo.get? core.refKey = some (.error e)) :
      Resolved resolver p t v r (.error e) q

/-- The recursion of the call is `register`, whose specification is used here. -/
theorem resolved_of_run (hp : Closed resolver p) (ht : ∀ u ∈ t.core?, p u)
    (hr : Valid resolver p r) {answer : Except ResolutionError Schema}
    (h : (resolve resolver depth t v).run r = some (answer, s)) :
    Resolved resolver p t v r answer s := by
  unfold resolve inlineSchema at h
  obtain ⟨found, q, hrun, h⟩ := run_bind_eq_some.1 h
  split at hrun
  · next ws schema hpeel =>
    cases hrun
    cases h
    exact .fixed ws schema hpeel
  · next ws core hpeel =>
    obtain ⟨result, q', hrun, hfound⟩ := run_bind_eq_some.1 hrun
    have hcore := ht core (TypeExpr.core?_of_peel_named hpeel)
    have done := register_spec hp depth core r result q' hcore hr.sound hrun
    -- there is a component exactly if the type could be resolved
    cases result with
    | ok =>
      cases hfound
      cases h
      have hidle := done.grows.inProgress.trans hr.idle
      obtain ⟨c, hc⟩ := (hasComponent_iff hidle).1 (done.ok rfl)
      exact .component ws core c _ hpeel done.sound done.grows hc
    | error e =>
      cases hfound
      cases h
      exact .failed ws core e _ hpeel done.sound done.grows (done.error e rfl)

/-- Registering changes the memo and not the variants. -/
theorem Grows.componentsOf_eq (hg : Grows r q) : q.componentsOf w = r.componentsOf w := by
  rw [componentsOf, componentsOf, hg.variants]

/-- The memo has grown, and nothing else is new. -/
theorem Valid.grow (hr : Valid resolver p r) (hq : Sound resolver p q) (hg : Grows r q) :
    Valid resolver p q where
  sound := hq
  idle := hg.inProgress.trans hr.idle
  copies v := by
    rw [hg.componentsOf_eq]
    exact (hr.copies v).grow hg.memo

/-- In each of the three cases. -/
theorem Resolved.valid (hr : Valid resolver p r) {answer : Except ResolutionError Schema}
    (h : Resolved resolver p t v r answer s) : Valid resolver p s := by
  cases h with
  | fixed => exact hr
  | component ws core c q _ hq hg _ => exact (hr.grow hq hg).copyIntoVariant v core.refKey
  | failed ws core e q _ hq hg _ => exact hr.grow hq hg

/-- Nothing that was known is forgotten. -/
theorem Resolved.memo {answer : Except ResolutionError Schema}
    (h : Resolved resolver p t v r answer s) {x : Except ResolutionError Component}
    (hx : r.memo.get? key = some x) : s.memo.get? key = some x := by
  cases h with
  | fixed => exact hx
  | component ws core c q _ _ hg _ => exact hg.memo hx
  | failed ws core e q _ _ hg _ => exact hg.memo hx

/-- Behind a call the memo knows the named type. -/
theorem Resolved.memo_core {answer : Except ResolutionError Schema}
    (h : Resolved resolver p t v r answer s) :
    ∀ u ∈ t.core?, (∃ c, s.memo.get? u.refKey = some (.ok c)) ∨
      ∃ e, answer = .error e ∧ s.memo.get? u.refKey = some (.error e) := by
  intro u hu
  cases h with
  | fixed ws schema hpeel =>
    rw [TypeExpr.core?_of_peel_fixed hpeel] at hu
    cases hu
  | component ws core c q hpeel _ _ hc =>
    rw [TypeExpr.core?_of_peel_named hpeel] at hu
    cases hu
    exact .inl ⟨c, hc⟩
  | failed ws core e q hpeel _ _ he =>
    rw [TypeExpr.core?_of_peel_named hpeel] at hu
    cases hu
    exact .inr ⟨e, rfl, he⟩

/-- An answer means that the component is there. -/
theorem Resolved.registered {x : Schema} (h : Resolved resolver p t v r (.ok x) s) :
    ∀ u ∈ t.core?, ∃ c, s.memo.get? u.refKey = some (.ok c) := by
  intro u hu
  rcases h.memo_core u hu with hc | ⟨e, he, -⟩
  · exact hc
  · cases he

/-! ## Examples

An example is set for a copy of a variant. The component is copied first if the variant does not
have it, so that setting one may add components. -/

/-- The components of a variant with an example for one of them. -/
def withSample (schemas : KeyMap String Schema) (key : String) (sample : Json) :
    KeyMap String Schema :=
  match schemas.get? key with
  | some s => schemas.insert key { s with sample := some sample }
  | none => schemas

/-- Whether the component was found, and what the variants have afterwards. -/
theorem injectSample_eq (r : Registry) (key : String) (v : Variant) (sample : Json) :
    (r.injectSample key v sample).1 =
        ((copyComponents r.memo [key] (r.componentsOf v)).get? key).isSome ∧
      (r.injectSample key v sample).2.memo = r.memo ∧
      ∀ w, (r.injectSample key v sample).2.componentsOf w =
        if w = v then withSample (copyComponents r.memo [key] (r.componentsOf v)) key sample
        else r.componentsOf w := by
  have hv : (r.copyIntoVariant v key).componentsOf v =
      copyComponents r.memo [key] (r.componentsOf v) := by
    rw [componentsOf_copyIntoVariant, if_pos rfl]
  unfold injectSample withSample
  -- both cases start from the copies
  simp only [hv]
  cases hs : (copyComponents r.memo [key] (r.componentsOf v)).get? key with
  | some s =>
    refine ⟨rfl, rfl, fun w => ?_⟩
    dsimp only
    rw [componentsOf_insert, componentsOf_copyIntoVariant]
    by_cases hw : w = v
    · rw [if_pos hw, if_pos hw]
    · rw [if_neg hw, if_neg hw, if_neg hw]
  | none =>
    refine ⟨rfl, rfl, fun w => ?_⟩
    dsimp only
    rw [componentsOf_copyIntoVariant]

/-- An example leaves the references of a schema as they are. -/
theorem Valid.injectSample (hr : Valid resolver p r) {sample : Json} :
    Valid resolver p (r.injectSample key v sample).2 := by
  have hcopied := hr.copyIntoVariant v key
  unfold Registry.injectSample
  dsimp only
  split
  · next s hs => exact hcopied.update ((hcopied.copies v).sample hs)
  · exact hcopied

/-! ## Going back

A snapshot holds the components of the variants and not the memo. -/

/-- The older components are copies of what is still in the memo. -/
theorem Valid.restore {saved : Snapshot} (hr : Valid resolver p r)
    (hs : ∀ v, Copies r.memo ((saved.get? v).getD ∅)) : Valid resolver p (r.restore saved) where
  sound := ⟨hr.sound.building, hr.sound.failed, hr.sound.stored⟩
  idle := hr.idle
  copies := hs

/-- What the document has under a key comes first. -/
theorem get?_flush {target : KeyMap String Schema} :
    (r.flush v target).get? key = (target.get? key <|> (r.componentsOf v).get? key) :=
  KeyMap.get?_foldl_insertNew _ _ _

/-- Looking up is looking into the components of the variant. -/
theorem lookup?_eq : r.lookup? key v = (r.componentsOf v).get? key := by
  unfold lookup? componentsOf
  cases r.variants.get? v with
  | none => rfl
  | some schemas => rfl

end EndpointDocs.Registry
