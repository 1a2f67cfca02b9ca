import EndpointDocs.Proofs.Schema.References

/-!
# References are kept

Schemas of the same shape have the same references, so widening a schema by another one keeps the
references of both. And if the fields of a declaration have distinct names, no property takes the
place of another: the schema of a component refers to all that it depends on
(`Component.refersToAll_of`), which need not hold otherwise (`Component.not_refersToAll_of_twice`).
-/

namespace EndpointDocs

namespace Schema

variable {ref : String}

/-! ## The same shape

The recursion goes along two schemas at once. It is the one by which `same` is defined, with a lemma
for each of its functions. -/

mutual

/-- Examples may differ in how numbers are written, but an example refers to nothing. -/
theorem refs_eq_of_same : ∀ {a b : Schema}, same a b = true → a.refs = b.refs
  | ⟨_, _, _, _, _, _, _, _, _, _, _⟩, ⟨_, _, _, _, _, _, _, _, _, _, _⟩, h => by
    simp only [same, Bool.and_eq_true, beq_iff_eq] at h
    obtain ⟨⟨⟨⟨⟨⟨⟨-, hproperties⟩, -⟩, hitems⟩, hvalues⟩, -⟩, hreference⟩, halternatives⟩ := h.1
    simp only [refs]
    rw [refsOfProperties_eq_of_same hproperties, refsOfOptional_eq_of_same hitems,
      refsOfOptional_eq_of_same hvalues, hreference, refsOfAlternatives_eq_of_same halternatives]

/-- The properties in pairs. -/
theorem refsOfProperties_eq_of_same : ∀ {as bs : List (String × Schema)},
    sameProperties as bs = true → refsOfProperties as = refsOfProperties bs
  | [], [], _ => rfl
  | (_, _) :: _, (_, _) :: _, h => by
    simp only [sameProperties, Bool.and_eq_true] at h
    simp only [refsOfProperties]
    rw [refs_eq_of_same h.1.2, refsOfProperties_eq_of_same h.2]
  | [], _ :: _, h => by simp only [sameProperties, Bool.false_eq_true] at h
  | _ :: _, [], h => by simp only [sameProperties, Bool.false_eq_true] at h

theorem refsOfOptional_eq_of_same : ∀ {a b : Option Schema},
    sameOptional a b = true → refsOfOptional a = refsOfOptional b
  | none, none, _ => rfl
  | some _, some _, h => by
    simp only [sameOptional] at h
    exact refs_eq_of_same h
  | none, some _, h => by simp only [sameOptional, Bool.false_eq_true] at h
  | some _, none, h => by simp only [sameOptional, Bool.false_eq_true] at h

theorem refsOfAlternatives_eq_of_same : ∀ {as bs : Option (List Schema)},
    sameAlternatives as bs = true → refsOfAlternatives as = refsOfAlternatives bs
  | none, none, _ => rfl
  | some _, some _, h => by
    simp only [sameAlternatives] at h
    exact refsOfAll_eq_of_same h
  | none, some _, h => by simp only [sameAlternatives, Bool.false_eq_true] at h
  | some _, none, h => by simp only [sameAlternatives, Bool.false_eq_true] at h

/-- The alternatives in pairs. -/
theorem refsOfAll_eq_of_same : ∀ {as bs : List Schema},
    sameAll as bs = true → refsOfAll as = refsOfAll bs
  | [], [], _ => rfl
  | _ :: _, _ :: _, h => by
    simp only [sameAll, Bool.and_eq_true] at h
    simp only [refsOfAll]
    rw [refs_eq_of_same h.1, refsOfAll_eq_of_same h.2]
  | [], _ :: _, h => by simp only [sameAll, Bool.false_eq_true] at h
  | _ :: _, [], h => by simp only [sameAll, Bool.false_eq_true] at h

end

/-- An example is left out of the shape, and refers to nothing. -/
theorem refs_eq_of_sameShape {a b : Schema} (h : a.sameShape b = true) : a.refs = b.refs := by
  rw [← refs_with_sample a none, ← refs_with_sample b none]
  exact refs_eq_of_same h

/-! ## Widening

An alternative of the same shape stands for the schema that is added, and the references are the
same then. So nothing is lost by leaving it out. -/

variable {s other : Schema}

/-- An alternative that is known already has the references of the other one. -/
theorem refs_subset_addAlternative {alternatives : List Schema}
    (h : ref ∈ refsOfAll alternatives ∨ ref ∈ other.refs) :
    ref ∈ refsOfAll (addAlternative other alternatives) := by
  induction alternatives with
  | nil =>
    rcases h with h | h
    · cases h
    · exact List.mem_append_left _ h
  | cons known rest ih =>
    rw [addAlternative]
    rw [refsOfAll, List.mem_append, or_assoc] at h
    split
    · next hsame =>
      rw [refsOfAll, refs_adoptSample, List.mem_append]
      rw [← refs_eq_of_sameShape hsame] at h
      tauto
    · rw [refsOfAll, List.mem_append]
      exact h.imp_right ih

/-- Widening has the references of both schemas. -/
theorem mem_refs_widen_iff : ref ∈ (s.widen other).refs ↔ ref ∈ s.refs ∨ ref ∈ other.refs := by
  refine ⟨mem_refs_widen, fun h => ?_⟩
  unfold widen
  split
  · -- schemas of one shape have the same references, so nothing is lost
    next hsame =>
    rw [refs_adoptSample]
    exact h.elim id fun hother => refs_eq_of_sameShape hsame ▸ hother
  · split
    · next alternatives _ halternatives =>
      cases s
      cases halternatives
      simp only [refs, refsOfAlternatives, List.mem_append] at h ⊢
      rcases h with (h | h) | h
      · exact .inl h
      · exact .inr (refs_subset_addAlternative (.inl h))
      · exact .inr (refs_subset_addAlternative (.inr h))
    · have hunion : (union [s, other]).refs = s.refs ++ (other.refs ++ []) := rfl
      rw [hunion, List.append_nil]
      exact List.mem_append.2 h

end Schema

/-! ## Components

A property is inserted under its name, and with two fields of one name the second takes the place of
the first. The dependency that came with the first one stays in the list all the same. -/

open Schema

/-- The fields of the shape have distinct names. -/
def Shape.DistinctFields : Shape → Prop
  | .struct _ fields => (fields.map FieldShape.name).Nodup
  | .newtype _ => True
  | .enum _ => True

/-- The fields of every declaration have distinct names. -/
def Resolver.DistinctFields (resolver : Resolver) : Prop :=
  ∀ name shape, resolver name = some shape → shape.DistinctFields

/-- The entries of other keys are still there. -/
theorem Entries.mem_alter_of_ne {κ α : Type} [LT κ] [DecidableLT κ] [OrderedKey κ] {key : κ}
    {change : Option α → α} {entries : List (κ × α)} {p : κ × α} (hp : p ∈ entries)
    (hne : p.1 ≠ key) : p ∈ alter key change entries := by
  induction entries with
  | nil => cases hp
  | cons e rest ih =>
    obtain ⟨k, v⟩ := e
    rw [alter]
    split
    · exact List.mem_cons_of_mem _ hp
    · next hle =>
      split
      · exact List.mem_cons.2 ((List.mem_cons.1 hp).imp_right ih)
      · next hge =>
        -- the entry that is changed is the one with the key
        have hsame : key = k := OrderedKey.eq_of_not_lt hle hge
        rcases List.mem_cons.1 hp with rfl | hp
        · exact absurd hsame.symm hne
        · exact List.mem_cons_of_mem _ hp

/-- What was inserted is there. -/
theorem Entries.mem_insert_self {κ α : Type} [LT κ] [DecidableLT κ] (key : κ) (value : α)
    (entries : List (κ × α)) : (key, value) ∈ insert key value entries := by
  unfold insert
  induction entries with
  | nil => exact List.mem_singleton_self _
  | cons e rest ih =>
    obtain ⟨k, v⟩ := e
    rw [alter]
    split
    · exact List.mem_cons_self
    · split
      · exact List.mem_cons_of_mem _ ih
      · exact List.mem_cons_self

namespace Component

variable {known : TypeExpr → Bool} {key : String}

/-- The schema of the component has a reference for each key that it depends on. -/
def RefersToAll (c : Component) : Prop :=
  ∀ key, c.dependencies.contains key = true → componentsPrefix ++ key ∈ c.fragment.refs

/-- A key that a nested schema adds is one that it refers to. -/
theorem mem_refs_nestedSchemaOf {t : TypeExpr} {dependencies : Keys}
    (h : (nestedSchemaOf known t dependencies).2.contains key = true) :
    dependencies.contains key = true ∨
      componentsPrefix ++ key ∈ (nestedSchemaOf known t dependencies).1.refs := by
  rcases contains_nestedSchemaOf.1 h with hold | ⟨core, hcore, hk, rfl⟩
  · exact .inl hold
  · right
    unfold nestedSchemaOf
    rcases hpeel : t.peel with ⟨ws, schema | named⟩
    · rw [TypeExpr.core?_of_peel_fixed hpeel] at hcore
      cases hcore
    · rw [TypeExpr.core?_of_peel_named hpeel] at hcore
      cases hcore
      simp only [hk, if_true, refs_wrap, refs_component, List.mem_singleton]

/-- A property of a new name leaves all references. -/
theorem mem_refs_insert_property {s : Schema} {name ref : String} {required : List String}
    {property : Schema} (hnew : ∀ p ∈ s.properties, p.1 ≠ name)
    (h : ref ∈ s.refs ∨ ref ∈ property.refs) :
    ref ∈ ({ s with required := required
                    properties := Entries.insert name property s.properties } : Schema).refs := by
  -- no property has the name, so each stays
  have hkept : ∀ p ∈ s.properties, p ∈ Entries.insert name property s.properties :=
    fun p hp => Entries.mem_alter_of_ne hp (hnew p hp)
  rcases h with h | h
  · cases s
    simp only [refs, List.mem_append, mem_refsOfProperties] at h ⊢
    rcases h with (((h | ⟨p, hp, h⟩) | h) | h) | h
    · exact .inl (.inl (.inl (.inl h)))
    · exact .inl (.inl (.inl (.inr ⟨p, hkept p hp, h⟩)))
    · exact .inl (.inl (.inr h))
    · exact .inl (.inr h)
    · exact .inr h
  · exact mem_refs_of_property (Entries.mem_insert_self name property s.properties) h

/-- The induction is on the fields; the names of those that are left are new. -/
theorem RefersToAll.foldl_addField {generics : List String} {args : List TypeExpr}
    {fields : List FieldShape} {c : Component} (h : c.RefersToAll)
    (hnodup : (fields.map FieldShape.name).Nodup)
    (hnew : ∀ p ∈ c.fragment.properties, p.1 ∉ fields.map FieldShape.name) :
    (fields.foldl (addField known generics args) c).RefersToAll := by
  induction fields generalizing c with
  | nil => exact h
  | cons f rest ih =>
    obtain ⟨hf, hrest⟩ := List.nodup_cons.1 hnodup
    refine ih (fun key hkey => ?_) hrest fun p hp => ?_
    · refine mem_refs_insert_property (fun p hp he => ?_) ?_
      · -- the new property has a name of its own, so no other one goes away
        exact hnew p hp (he ▸ List.mem_cons_self)
      · rw [refs_with_description]
        exact (mem_refs_nestedSchemaOf hkey).imp_left (h key)
    · -- the names that were added are not those that are left
      rcases Entries.mem_alter hp with hp | ⟨he, -⟩
      · exact fun hmem => hnew p hp (List.mem_cons_of_mem _ hmem)
      · exact he ▸ hf

/-- No two fields have one name, so no property is lost. -/
theorem refersToAll_of {t : TypeExpr} {shape : Shape} (h : shape.DistinctFields) :
    (Component.of known t shape).RefersToAll := by
  cases shape with
  | struct generics fields =>
    have hstart : (⟨.object, ∅⟩ : Component).RefersToAll := fun key hkey => nomatch hkey
    exact hstart.foldl_addField h fun p hp => nomatch hp
  | newtype inner =>
    intro key hkey
    exact (mem_refs_nestedSchemaOf hkey).resolve_left Bool.false_ne_true
  | enum names => exact fun key hkey => nomatch hkey

/-- A property that takes the place of another one leaves a dependency without a reference. -/
theorem not_refersToAll_of_twice : ¬ (Component.of (fun _ => true) ⟨"Team", []⟩
    (.struct [] [⟨"lead", ⟨"Person", []⟩, none⟩, ⟨"lead", ⟨"String", []⟩, none⟩])).RefersToAll := by
  intro h
  have href := h "Person" (by decide +kernel)
  have hnone : (Component.of (fun _ => true) ⟨"Team", []⟩ (.struct []
      [⟨"lead", ⟨"Person", []⟩, none⟩, ⟨"lead", ⟨"String", []⟩, none⟩])).fragment.refs = [] := by
    decide +kernel
  rw [hnone] at href
  cases href

end Component

end EndpointDocs
