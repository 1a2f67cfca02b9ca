import EndpointDocs.Proofs.Registry.Extends
import EndpointDocs.Proofs.Schema.Dependencies

/-!
# What the components of a variant are used for

A key is *used* from some roots if it is reached from one of them by the references in components
(`Used`). The components of a variant are *covered* by roots if each of them is used from these
(`Registry.Covered`). Copying a component along with all that it depends on needs one root more, the
component itself, if the declarations have distinct field names: then what a component depends on is
what it refers to.
-/

namespace EndpointDocs

open Schema

/-- The type is about the component of the key. -/
def TypeExpr.Names (t : TypeExpr) (key : String) : Prop := ∃ core ∈ t.core?, core.refKey = key

/-! ## References between components -/

/-- The component of the one key has a reference to the other key. -/
def Links (components : String → Option Schema) (key other : String) : Prop :=
  ∃ s, components key = some s ∧ componentsPrefix ++ other ∈ s.refs

/-- The key is reached from a root by references. -/
def Used (components : String → Option Schema) (roots : String → Prop) (key : String) : Prop :=
  ∃ root, roots root ∧ Relation.ReflTransGen (Links components) root key

variable {components more : String → Option Schema} {roots roots' : String → Prop} {key : String}

/-- Each component is one of the other ones, apart from what it does not refer with. -/
def KeepsLinks (components more : String → Option Schema) : Prop :=
  ∀ key s, components key = some s → ∃ s', more key = some s' ∧ s'.refs = s.refs

theorem Used.root (h : roots key) : Used components roots key := ⟨key, h, .refl⟩

theorem Used.mono (h : Used components roots key) (hroots : ∀ root, roots root → roots' root)
    (hlinks : KeepsLinks components more) : Used more roots' key := by
  obtain ⟨root, hroot, hreach⟩ := h
  refine ⟨root, hroots root hroot, hreach.lift id fun a b ⟨s, hs, href⟩ => ?_⟩
  obtain ⟨s', hs', hrefs⟩ := hlinks a s hs
  exact ⟨s', hs', hrefs ▸ href⟩

theorem KeepsLinks.refl (components : String → Option Schema) : KeepsLinks components components :=
  fun _ s hs => ⟨s, hs, rfl⟩

/-! ## Covered variants -/

namespace Registry

open Resolving

variable {resolver : Resolver} {r s q : Registry} {v w : Variant} {t : TypeExpr} {depth : Nat}

/-- Every component of the variant is used from one of the roots. -/
def Covered (r : Registry) (v : Variant) (roots : String → Prop) : Prop :=
  ∀ key, r.has v key → Used (r.componentsOf v).get? roots key

theorem Covered.empty : Covered {} v roots := fun _ ⟨_, hs⟩ => nomatch hs

theorem Covered.weaken (h : Covered r v roots) (hroots : ∀ root, roots root → roots' root) :
    Covered r v roots' := fun key hk => (h key hk).mono hroots (.refl _)

/-- Only the components of the variant count. -/
theorem Covered.congr (h : Covered r v roots) (hsame : s.componentsOf v = r.componentsOf v) :
    Covered s v roots := by
  unfold Covered has
  rw [hsame]
  exact h

/-- What a component in the memo depends on is what it refers to. -/
theorem Sound.mem_refs {p : TypeExpr → Prop} {c : Component} {dep : String}
    (hr : Sound resolver p r) (hdistinct : resolver.DistinctFields)
    (hc : r.memo.get? key = some (.ok c)) (hd : dep ∈ c.dependencies.keys) :
    componentsPrefix ++ dep ∈ c.fragment.refs := by
  obtain ⟨t, shape, -, -, hs, rfl, -⟩ := hr.stored hc
  exact Component.refersToAll_of (hdistinct _ shape hs) dep
    (KeyMap.contains_iff.2 (KeyMap.mem_keys_iff.1 hd))

/-- The copied component is a root; its dependencies are reached from it. The induction is on the
way on which a component was copied. -/
theorem Covered.copyIntoVariant {p : TypeExpr → Prop} (h : Covered r v roots)
    (hr : Sound resolver p r) (hdistinct : resolver.DistinctFields) :
    Covered (r.copyIntoVariant v key) v fun root => roots root ∨ root = key := by
  intro other ⟨s, hs⟩
  rw [componentsOf_copyIntoVariant, if_pos rfl] at hs ⊢
  rcases get?_copyComponents.1 hs with hs | ⟨c, hcopied, -⟩
  · refine (h other ⟨s, hs⟩).mono (fun _ => .inl) fun k s hs => ?_
    exact ⟨s, get?_copyComponents.2 (.inl hs), rfl⟩
  · clear hs
    induction hcopied with
    | pending hk _ => exact .root (.inr (List.mem_singleton.1 hk))
    | @dependency k dep c d hk hd _ ih =>
      obtain ⟨root, hroot, hreach⟩ := ih
      refine ⟨root, hroot, hreach.tail ⟨c.fragment, ?_, hr.mem_refs hdistinct hk.fresh.1 hd⟩⟩
      exact get?_copyComponents.2 (.inr ⟨c, hk, rfl⟩)

/-- An example for a component that is there makes no difference. -/
theorem Covered.injectSample {sample : Json} (h : Covered r v roots) (hk : r.has v key) :
    Covered (r.injectSample key v sample).2 v roots := by
  obtain ⟨-, -, hcomponents⟩ := injectSample_eq r key v sample
  unfold Covered has
  rw [hcomponents, if_pos rfl, copyComponents_of_has hk]
  rw [get?_withSample]
  rintro other ⟨s, hs⟩
  obtain ⟨known, hknown, -⟩ := Option.map_eq_some_iff.1 hs
  refine (h other ⟨known, hknown⟩).mono (fun _ => id) fun k s hs => ?_
  refine ⟨_, congrArg _ hs, ?_⟩
  dsimp only
  split
  · exact refs_with_sample s _
  · rfl

/-! ## Calls -/

/-- The registry is valid, and what the variant has got besides is used from the given keys. -/
structure Supplies (resolver : Resolver) (v : Variant) (names : String → Prop) (r s : Registry) :
    Prop where
  valid : Valid resolver (fun _ => True) s
  covered : ∀ roots, Covered r v roots → Covered s v fun root => roots root ∨ names root

namespace Supplies

variable {names more : String → Prop}

theorem refl (hr : Valid resolver (fun _ => True) r) : Supplies resolver v names r r :=
  ⟨hr, fun _ h => h.weaken fun _ => .inl⟩

theorem mono (h : Supplies resolver v names r s) (hnames : ∀ key, names key → more key) :
    Supplies resolver v more r s :=
  ⟨h.valid, fun roots hroots =>
    (h.covered roots hroots).weaken fun root => .imp_right (hnames root)⟩

theorem trans (h : Supplies resolver v names r s) (h' : Supplies resolver v names s q) :
    Supplies resolver v names r q := by
  refine ⟨h'.valid, fun roots hroots => ?_⟩
  exact (h'.covered _ (h.covered roots hroots)).weaken fun root hroot => hroot.elim id .inr

/-- A type that is resolved supplies the component that it is about. -/
theorem resolve {schema : Schema} (hdistinct : resolver.DistinctFields)
    (hr : Valid resolver (fun _ => True) r)
    (hrun : (Registry.resolve resolver depth t v).run r = some (.ok schema, s)) :
    Supplies resolver v t.Names r s := by
  have hresolved := resolved_of_run (fun _ _ _ _ _ _ => trivial) (fun _ _ => trivial) hr hrun
  refine ⟨hresolved.valid hr, fun roots h => ?_⟩
  cases hresolved with
  | fixed => exact h.weaken fun _ => .inl
  | component ws core c q hpeel hq hg _ =>
    have hgrown : Covered q v roots := h.congr hg.componentsOf_eq
    refine (hgrown.copyIntoVariant hq hdistinct).weaken fun root => .imp_right ?_
    rintro rfl
    exact ⟨core, TypeExpr.core?_of_peel_named hpeel, rfl⟩

end Supplies

/-- The schema of a type refers to the component that the type is about. -/
theorem mem_refs_of_resolve {schema : Schema} (hr : Valid resolver (fun _ => True) r)
    (hrun : (Registry.resolve resolver depth t v).run r = some (.ok schema, s))
    (hkey : t.Names key) : componentsPrefix ++ key ∈ schema.refs := by
  obtain ⟨core, hcore, rfl⟩ := hkey
  have hresolved := resolved_of_run (fun _ _ _ _ _ _ => trivial) (fun _ _ => trivial) hr hrun
  cases hresolved with
  | fixed ws schema hpeel =>
    rw [TypeExpr.core?_of_peel_fixed hpeel] at hcore
    cases hcore
  | component ws core' c q hpeel _ _ _ =>
    rw [TypeExpr.core?_of_peel_named hpeel] at hcore
    cases hcore
    rw [refs_wrap, refs_component]
    exact List.mem_singleton_self _

end Registry

end EndpointDocs
