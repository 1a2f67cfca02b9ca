import EndpointDocs.Proofs.Registry.Component

/-!
# References in a schema

A schema refers to components at its top and inside its parts: properties, items, values of a map
and alternatives. `refs` lists all of these references, and `RefersTo` says that each of them names
a component by a key of the given ones. No step that builds a schema invents a reference: a wrapper
has those of what it wraps, widening those of the two schemas, and the schema of a component has a
reference for each key that the component depends on.

So it is enough to know what the parts refer to. The lemmas below are stated beside the steps that
build schemas, and later modules use these and not the definition of `refs`.
-/

namespace EndpointDocs

namespace Schema

mutual

/-- Every reference in a schema, from the top down. An example is data and refers to nothing. -/
def refs : Schema → List String
  | ⟨_, _, _, properties, _, items, values, _, reference, alternatives, _⟩ =>
    reference.toList ++ refsOfProperties properties ++ refsOfOptional items ++
      refsOfOptional values ++ refsOfAlternatives alternatives

def refsOfProperties : List (String × Schema) → List String
  | [] => []
  | (_, s) :: rest => refs s ++ refsOfProperties rest

def refsOfOptional : Option Schema → List String
  | none => []
  | some s => refs s

def refsOfAlternatives : Option (List Schema) → List String
  | none => []
  | some alternatives => refsOfAll alternatives

def refsOfAll : List Schema → List String
  | [] => []
  | s :: rest => refs s ++ refsOfAll rest

end

/-- Every reference in the schema names a component by one of the keys. -/
def RefersTo (keys : String → Prop) (s : Schema) : Prop :=
  ∀ ref ∈ s.refs, ∃ key, ref = componentsPrefix ++ key ∧ keys key

variable {s other : Schema} {keys : String → Prop} {ref : String}

/-- More components may be given. -/
theorem RefersTo.mono {more : String → Prop} (hsub : ∀ key, keys key → more key)
    (h : s.RefersTo keys) : s.RefersTo more := by
  intro ref hr
  obtain ⟨key, rfl, hkey⟩ := h ref hr
  exact ⟨key, rfl, hsub key hkey⟩

/-- A property refers to what its schema refers to. -/
theorem mem_refsOfProperties {properties : List (String × Schema)} :
    ref ∈ refsOfProperties properties ↔ ∃ p ∈ properties, ref ∈ p.2.refs := by
  induction properties with
  | nil => simp [refsOfProperties]
  | cons p rest ih =>
    obtain ⟨name, s⟩ := p
    simp [refsOfProperties, ih]

/-- Likewise for alternatives. -/
theorem mem_refsOfAll {alternatives : List Schema} :
    ref ∈ refsOfAll alternatives ↔ ∃ s ∈ alternatives, ref ∈ s.refs := by
  induction alternatives with
  | nil => simp [refsOfAll]
  | cons s rest ih => simp [refsOfAll, ih]

/-! ## Parts without references

Texts, formats and examples are no references, and wrapping a schema into lists and maps adds none.
So the references of a schema are those of what it is built around. -/

@[simp] theorem refs_object : object.refs = [] := rfl

/-- An example does not count. -/
theorem refs_with_sample (s : Schema) (sample : Option Json) :
    ({ s with sample := sample } : Schema).refs = s.refs := by
  cases s
  rfl

/-- A description does not count either. -/
theorem refs_with_description (s : Schema) (description : Option String) :
    ({ s with description := description } : Schema).refs = s.refs := by
  cases s
  rfl

@[simp] theorem refs_component (key : String) :
    (component key).refs = [componentsPrefix ++ key] := rfl

/-- The items have the references of an array. -/
theorem refs_array (s : Schema) : s.array.refs = s.refs := by
  show [] ++ [] ++ s.refs ++ [] ++ [] = s.refs
  simp only [List.nil_append, List.append_nil]

/-- The values have the references of a map. -/
theorem refs_map (s : Schema) : s.map.refs = s.refs := by
  show [] ++ [] ++ [] ++ s.refs ++ [] = s.refs
  simp only [List.nil_append, List.append_nil]

/-- The induction is on the wrappers. -/
theorem refs_wrap (ws : List Wrapper) (s : Schema) : (wrap ws s).refs = s.refs := by
  induction ws with
  | nil => rfl
  | cons w ws ih =>
    cases w with
    | list => exact (refs_array _).trans ih
    | map => exact (refs_map _).trans ih

/-! ## The key of a reference

An example of a tag goes to the component that the schema refers to at its top, and this component
is found by its key, which is read from the reference. -/

/-- Behind the prefix stands the rest. -/
theorem eq_append_of_afterPrefix? {start cs rest : List Char}
    (h : afterPrefix? start cs = some rest) : cs = start ++ rest := by
  fun_induction afterPrefix? start cs with
  | case1 cs =>
    cases h
    rfl
  | case2 start c cs ih => rw [ih h, List.cons_append]
  | case3 => cases h
  | case4 => cases h

/-- The key that is read from a reference is one of those referred to. -/
theorem RefersTo.refKey? {key : String} (h : s.RefersTo keys) (hk : s.refKey? = some key) :
    keys key := by
  obtain ⟨ref, href, hrest⟩ := Option.bind_eq_some_iff.1 hk
  obtain ⟨rest, hafter, rfl⟩ := Option.map_eq_some_iff.1 hrest
  have hmem : ref ∈ s.refs := by
    cases s
    cases href
    exact List.mem_append_left _ (List.mem_append_left _ (List.mem_append_left _
      (List.mem_append_left _ List.mem_cons_self)))
  obtain ⟨key, rfl, hkey⟩ := h ref hmem
  have hchars := eq_append_of_afterPrefix? hafter
  rw [String.toList_append, List.append_cancel_left_eq] at hchars
  rw [← hchars, String.ofList_toList]
  exact hkey

/-! ## Widening

Widening moves schemas but does not change their references, apart from adding those of the other
schema. -/

theorem refs_adoptSample (s other : Schema) : (s.adoptSample other).refs = s.refs :=
  refs_with_sample s _

/-- An alternative that takes an example keeps its references. -/
theorem mem_refsOfAll_addAlternative {alternatives : List Schema}
    (h : ref ∈ refsOfAll (addAlternative other alternatives)) :
    ref ∈ refsOfAll alternatives ∨ ref ∈ other.refs := by
  induction alternatives with
  | nil =>
    rw [addAlternative, mem_refsOfAll] at h
    obtain ⟨s, hs, hr⟩ := h
    exact .inr (List.mem_singleton.1 hs ▸ hr)
  | cons known rest ih =>
    rw [addAlternative] at h
    split at h
    · rw [refsOfAll, refs_adoptSample] at h
      exact .inl h
    · rw [refsOfAll, List.mem_append] at h ⊢
      rcases h with h | h
      · exact .inl (.inl h)
      · exact (ih h).imp_left .inr

/-- Widening brings in no references but those of the other schema. -/
theorem mem_refs_widen (h : ref ∈ (s.widen other).refs) : ref ∈ s.refs ∨ ref ∈ other.refs := by
  unfold widen at h
  split at h
  · rw [refs_adoptSample] at h
    exact .inl h
  · split at h
    · next alternatives _ halternatives =>
      cases s
      cases halternatives
      simp only [refs, refsOfAlternatives, List.mem_append] at h ⊢
      rcases h with h | h
      · exact .inl (.inl h)
      · exact (mem_refsOfAll_addAlternative h).imp_left .inr
    · have hunion : (union [s, other]).refs = s.refs ++ (other.refs ++ []) := rfl
      rw [hunion, List.append_nil] at h
      exact List.mem_append.1 h

/-- Two schemas that refer to given components make another one that does. -/
theorem RefersTo.widen (h : s.RefersTo keys) (h' : other.RefersTo keys) :
    (s.widen other).RefersTo keys :=
  fun ref hr => (mem_refs_widen hr).elim (h ref) (h' ref)

theorem RefersTo.with_sample (h : s.RefersTo keys) (sample : Option Json) :
    ({ s with sample := sample } : Schema).RefersTo keys := by
  rw [RefersTo, refs_with_sample]
  exact h

end Schema

/-! ## The schema of a component

A component is built together with its list of dependencies. Each field adds a key to the list when
its schema gets the reference to it, and nothing takes a key away. -/

open Schema

/-- An entry of the list is one of before, or the one that was changed. -/
theorem Entries.mem_alter {κ α : Type} [LT κ] [DecidableLT κ] {key : κ} {change : Option α → α}
    {entries : List (κ × α)} {p : κ × α} (h : p ∈ alter key change entries) :
    p ∈ entries ∨ p.1 = key ∧ ∃ old, p.2 = change old := by
  induction entries with
  | nil =>
    rw [alter, List.mem_singleton] at h
    subst h
    exact .inr ⟨rfl, none, rfl⟩
  | cons e rest ih =>
    obtain ⟨k, v⟩ := e
    rw [alter] at h
    split at h
    · -- in front, behind, or in the place of the first entry
      rcases List.mem_cons.1 h with rfl | h
      · exact .inr ⟨rfl, none, rfl⟩
      · exact .inl h
    · split at h
      · rcases List.mem_cons.1 h with rfl | h
        · exact .inl List.mem_cons_self
        · exact (ih h).imp_left (List.mem_cons_of_mem _)
      · rcases List.mem_cons.1 h with rfl | h
        · exact .inr ⟨rfl, some v, rfl⟩
        · exact .inl (List.mem_cons_of_mem _ h)

variable {known : TypeExpr → Bool} {t : TypeExpr} {dependencies : Keys}

/-- A type with a schema of its own refers to no component. -/
theorem refs_of_peel_fixed {t : TypeExpr} {ws : List Wrapper} {s : Schema}
    (h : t.peel = (ws, .fixed s)) : s.refs = [] := by
  obtain ⟨type, format, rfl⟩ := TypeExpr.fixed_of_peel h
  rfl

/-- A key that was inserted is there. -/
theorem contains_insert_self {key : String} :
    (dependencies.insert key ()).contains key = true := by
  rw [KeyMap.contains, KeyMap.get?_insert, if_pos rfl, Option.isSome_some]

/-- A named type that is known is referred to and is a dependency; one that is not is neither. -/
theorem refersTo_nestedSchemaOf :
    (nestedSchemaOf known t dependencies).1.RefersTo
      fun key => (nestedSchemaOf known t dependencies).2.contains key = true := by
  unfold nestedSchemaOf
  rcases hp : t.peel with ⟨ws, schema | core⟩
  · intro ref hr
    rw [refs_wrap, refs_of_peel_fixed hp] at hr
    cases hr
  · -- a type that cannot be resolved is a free-form object, which refers to nothing
    by_cases hk : known core = true
    · simp only [hk, if_true]
      intro ref hr
      rw [refs_wrap, refs_component, List.mem_singleton] at hr
      exact ⟨core.refKey, hr, contains_insert_self⟩
    · intro ref hr
      rw [Bool.not_eq_true] at hk
      simp only [hk, Bool.false_eq_true, if_false, refs_object] at hr
      cases hr

/-- The keys that were there are still there. -/
theorem contains_nestedSchemaOf_of_contains {key : String} (h : dependencies.contains key = true) :
    (nestedSchemaOf known t dependencies).2.contains key = true :=
  contains_nestedSchemaOf.2 (.inl h)

/-- Other properties bring in their own references only. -/
theorem mem_refs_with_properties {s : Schema} {required : List String}
    {properties : List (String × Schema)} {ref : String}
    (h : ref ∈ ({ s with required := required, properties := properties } : Schema).refs) :
    ref ∈ s.refs ∨ ∃ p ∈ properties, ref ∈ p.2.refs := by
  cases s
  simp only [refs, List.mem_append, mem_refsOfProperties] at h ⊢
  tauto

/-- The references of a property are among those of the schema. -/
theorem mem_refs_of_property {s : Schema} {p : String × Schema} {ref : String}
    (hp : p ∈ s.properties) (h : ref ∈ p.2.refs) : ref ∈ s.refs := by
  cases s
  simp only [refs, List.mem_append, mem_refsOfProperties]
  exact .inl (.inl (.inl (.inr ⟨p, hp, h⟩)))

namespace Component

/-- Every reference in the component names one that it depends on. -/
def RefersToDependencies (c : Component) : Prop :=
  c.fragment.RefersTo fun key => c.dependencies.contains key = true

/-- The property may replace one of the same name. -/
theorem RefersToDependencies.addField {c : Component} (h : c.RefersToDependencies)
    (generics : List String) (args : List TypeExpr) (f : FieldShape) :
    (addField known generics args c f).RefersToDependencies := by
  intro ref hr
  have hkeep : ∀ key, c.dependencies.contains key = true →
      (Component.addField known generics args c f).dependencies.contains key = true :=
    fun key => contains_nestedSchemaOf_of_contains
  rcases mem_refs_with_properties hr with hr | ⟨p, hp, hr⟩
  · exact h.mono hkeep ref hr
  · rcases Entries.mem_alter hp with hp | ⟨-, -, hnew⟩
    · exact h.mono hkeep ref (mem_refs_of_property hp hr)
    · rw [hnew, refs_with_description] at hr
      exact refersTo_nestedSchemaOf ref hr

/-- The induction is on the fields. -/
theorem RefersToDependencies.foldl_addField (generics : List String) (args : List TypeExpr)
    (fields : List FieldShape) {c : Component} (h : c.RefersToDependencies) :
    (fields.foldl (Component.addField known generics args) c).RefersToDependencies := by
  induction fields generalizing c with
  | nil => exact h
  | cons f rest ih => exact ih (h.addField generics args f)

/-- A component has no reference to a component that it does not depend on. -/
theorem refersToDependencies_of (t : TypeExpr) (shape : Shape) :
    (Component.of known t shape).RefersToDependencies := by
  cases shape with
  | struct generics fields =>
    have hstart : (⟨.object, ∅⟩ : Component).RefersToDependencies := fun ref hr => nomatch hr
    exact hstart.foldl_addField generics t.args fields
  | newtype inner => exact refersTo_nestedSchemaOf
  | enum names => exact fun ref hr => nomatch hr

end Component

end EndpointDocs
