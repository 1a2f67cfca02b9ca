import EndpointDocs.Registry
import EndpointDocs.Proofs.KeyMap
import EndpointDocs.Proofs.TypeKey
import Mathlib.Logic.Relation

/-!
# Components without a registry

What the component of a type looks like follows from the type, its shape and a test that says which
named types are known; no registry is needed to say it (`Component.of`). A shape *mentions* the
named types of its fields, and only the answers of the test for these count (`Component.of_congr`).

A type *uses* the known types that its shape mentions. What is reached by using again and again is
what a document has to hold as well if it holds the type (`Reaches`).
-/

namespace EndpointDocs

/-! ## Named types -/

namespace TypeExpr

/-- The named type inside the wrappers, if there is one. -/
def core? (t : TypeExpr) : Option TypeExpr :=
  match t.peel.2 with
  | .fixed _ => none
  | .named core => some core

theorem core?_of_peel_named {t core : TypeExpr} {ws : List Wrapper}
    (h : t.peel = (ws, .named core)) : t.core? = some core := by
  rw [core?, h]

theorem core?_of_peel_fixed {t : TypeExpr} {ws : List Wrapper} {s : Schema}
    (h : t.peel = (ws, .fixed s)) : t.core? = none := by
  rw [core?, h]

/-- A type that is no named one has the schema of a simple type. -/
theorem fixed_of_peel {t : TypeExpr} :
    ∀ {ws : List Wrapper} {s : Schema}, t.peel = (ws, .fixed s) →
      ∃ type format, s = .typed type format := by
  fun_induction peel t with
  | case1 name args p =>
    intro ws s h
    cases h
    cases p <;> exact ⟨_, _, rfl⟩
  | case2 name => intro ws s h; cases h
  | case3 name inner rest _ _ ih => exact ih
  | case4 name inner rest _ _ _ ws' core' heq ih =>
    intro ws s h
    cases h
    exact ih heq
  | case5 name inner _ _ _ _ value rest ws' core' heq ih =>
    intro ws s h
    cases h
    exact ih heq
  | case6 => intro ws s h; cases h; exact ⟨_, _, rfl⟩
  | case7 => intro ws s h; cases h

theorem wellNamed_of_peel {t : TypeExpr} (ht : t.WellNamed) :
    ∀ {ws : List Wrapper} {core : TypeExpr}, t.peel = (ws, .named core) → core.WellNamed := by
  fun_induction peel t with
  | case1 => intro ws core h; cases h
  | case2 name => intro ws core h; cases h; exact ht
  | case3 name inner rest _ _ ih => exact ih ht.2.1
  | case4 name inner rest _ _ _ ws' core' heq ih =>
    intro ws core h
    cases h
    exact ih ht.2.1 heq
  | case5 name inner _ _ _ _ value rest ws' core' heq ih =>
    intro ws core h
    cases h
    exact ih ht.2.2.1 heq
  | case6 => intro ws core h; cases h
  | case7 name inner rest => intro ws core h; cases h; exact ht

theorem wellNamed_of_core? {t core : TypeExpr} (ht : t.WellNamed) (h : t.core? = some core) :
    core.WellNamed := by
  cases hp : t.peel with
  | mk ws c =>
    cases c with
    | fixed s => rw [core?_of_peel_fixed hp] at h; cases h
    | named c =>
      rw [core?_of_peel_named hp] at h
      cases h
      exact wellNamed_of_peel ht hp

end TypeExpr

namespace Shape

/-- The types that stand in a shape, with arguments in the place of the parameters. -/
def types (args : List TypeExpr) : Shape → List TypeExpr
  | .struct generics fields => fields.map fun f => f.type.substitute generics args
  | .newtype inner => [inner]
  | .enum _ => []

/-- The named types that a shape refers to. -/
def mentioned (args : List TypeExpr) (shape : Shape) : List TypeExpr :=
  (shape.types args).filterMap TypeExpr.core?

/-- The types of a declaration, as it is written. -/
def declaredTypes : Shape → List TypeExpr
  | .struct _ fields => fields.map FieldShape.type
  | .newtype inner => [inner]
  | .enum _ => []

end Shape

/-- Every name in a declaration is plain, as it is in source text. -/
def Resolver.WellNamed (resolver : Resolver) : Prop :=
  ∀ name shape, resolver name = some shape → ∀ t ∈ shape.declaredTypes, t.WellNamed

theorem Resolver.WellNamed.mentioned {resolver : Resolver} (hr : resolver.WellNamed) {name : String}
    {shape : Shape} (hs : resolver name = some shape) {args : List TypeExpr}
    (ha : ∀ a ∈ args, a.WellNamed) {u : TypeExpr} (hu : u ∈ shape.mentioned args) :
    u.WellNamed := by
  obtain ⟨t, ht, hc⟩ := List.mem_filterMap.1 hu
  refine TypeExpr.wellNamed_of_core? ?_ hc
  cases shape with
  | struct generics fields =>
    obtain ⟨f, hf, rfl⟩ := List.mem_map.1 ht
    have hdeclared := hr name _ hs f.type (List.mem_map_of_mem hf)
    exact TypeExpr.wellNamed_substitute ha f.type hdeclared
  | newtype inner => exact hr name _ hs t ht
  | enum names => cases ht

/-! ## Components -/

/-- The schema of a type inside another one, and the keys referred to with its own: a named type
that is not known is a free-form object. -/
def nestedSchemaOf (known : TypeExpr → Bool) (t : TypeExpr) (dependencies : Keys) : Schema × Keys :=
  match t.peel with
  | (ws, .fixed s) => (wrap ws s, dependencies)
  | (ws, .named core) =>
    if known core then (wrap ws (.component core.refKey), dependencies.insert core.refKey ())
    else (.object, dependencies)

namespace Component

/-- A component with one field more. -/
def addField (known : TypeExpr → Bool) (generics : List String) (args : List TypeExpr)
    (c : Component) (f : FieldShape) : Component :=
  let (property, dependencies) :=
    nestedSchemaOf known (f.type.substitute generics args) c.dependencies
  { fragment := { c.fragment with
      required := if f.isRequired then c.fragment.required ++ [f.name] else c.fragment.required
      properties := Entries.insert f.name { property with description := f.description }
        c.fragment.properties }
    dependencies }

/-- The component of a type by its shape. -/
def of (known : TypeExpr → Bool) (t : TypeExpr) : Shape → Component
  | .struct generics fields => fields.foldl (addField known generics t.args) ⟨.object, ∅⟩
  | .newtype inner =>
    let (fragment, dependencies) := nestedSchemaOf known inner ∅
    ⟨fragment, dependencies⟩
  | .enum names => ⟨{ Schema.typed "string" with values := some names }, ∅⟩

end Component

theorem nestedSchemaOf_congr {known other : TypeExpr → Bool} {t : TypeExpr}
    (h : ∀ u ∈ t.core?, known u = other u) (dependencies : Keys) :
    nestedSchemaOf known t dependencies = nestedSchemaOf other t dependencies := by
  unfold nestedSchemaOf
  split
  · rfl
  · next ws core hp => rw [h core (TypeExpr.core?_of_peel_named hp)]

/-- What is mentioned by the first field, or by the others. -/
theorem mem_mentioned_cons {generics : List String} {f : FieldShape} {rest : List FieldShape}
    {args : List TypeExpr} {u : TypeExpr} :
    u ∈ (Shape.struct generics (f :: rest)).mentioned args ↔
      u ∈ (f.type.substitute generics args).core? ∨
        u ∈ (Shape.struct generics rest).mentioned args := by
  rw [Shape.mentioned, Shape.types, List.map_cons, List.mem_filterMap]
  simp only [List.mem_cons, exists_eq_or_imp, Shape.mentioned, Shape.types, List.mem_filterMap,
    Option.mem_def]

theorem mem_mentioned_newtype {inner : TypeExpr} {args : List TypeExpr} {u : TypeExpr} :
    u ∈ (Shape.newtype inner).mentioned args ↔ u ∈ inner.core? := by
  simp [Shape.mentioned, Shape.types]

theorem foldl_addField_congr {known other : TypeExpr → Bool} {generics : List String}
    {args : List TypeExpr} {fields : List FieldShape}
    (h : ∀ u ∈ (Shape.struct generics fields).mentioned args, known u = other u) (c : Component) :
    fields.foldl (Component.addField known generics args) c =
      fields.foldl (Component.addField other generics args) c := by
  induction fields generalizing c with
  | nil => rfl
  | cons f rest ih =>
    have hf : Component.addField known generics args c f =
        Component.addField other generics args c f := by
      unfold Component.addField
      rw [nestedSchemaOf_congr fun u hu => h u (mem_mentioned_cons.2 (.inl hu))]
    rw [List.foldl_cons, List.foldl_cons, hf]
    exact ih (fun u hu => h u (mem_mentioned_cons.2 (.inr hu))) _

/-- Only what is known of the mentioned types counts. -/
theorem Component.of_congr {known other : TypeExpr → Bool} {t : TypeExpr} {shape : Shape}
    (h : ∀ u ∈ shape.mentioned t.args, known u = other u) :
    Component.of known t shape = Component.of other t shape := by
  cases shape with
  | struct generics fields => exact foldl_addField_congr h _
  | newtype inner =>
    simp only [Component.of,
      nestedSchemaOf_congr fun u hu => h u (mem_mentioned_newtype.2 hu)]
  | enum names => rfl

/-! ## The keys that a component refers to -/

theorem contains_nestedSchemaOf {known : TypeExpr → Bool} {t : TypeExpr} {dependencies : Keys}
    {key : String} :
    (nestedSchemaOf known t dependencies).2.contains key = true ↔
      dependencies.contains key = true ∨ ∃ u ∈ t.core?, known u = true ∧ u.refKey = key := by
  unfold nestedSchemaOf
  split
  · next ws s hp => simp [TypeExpr.core?_of_peel_fixed hp]
  · next ws core hp =>
    rw [TypeExpr.core?_of_peel_named hp]
    -- a type that is known adds its key, and any other one nothing
    by_cases hk : known core = true
    · rw [if_pos hk]
      simp only [KeyMap.contains, KeyMap.get?_insert, Option.mem_some_iff, exists_eq_left', hk,
        true_and]
      by_cases he : key = core.refKey
      · simp [he]
      · simp [he, Ne.symm he]
    · simp [hk]

theorem contains_foldl_addField {known : TypeExpr → Bool} {generics : List String}
    {args : List TypeExpr} {fields : List FieldShape} {key : String} (c : Component) :
    (fields.foldl (Component.addField known generics args) c).dependencies.contains key = true ↔
      c.dependencies.contains key = true ∨
        ∃ u ∈ (Shape.struct generics fields).mentioned args, known u = true ∧ u.refKey = key := by
  induction fields generalizing c with
  | nil => simp [Shape.mentioned, Shape.types]
  | cons f rest ih =>
    have hfield : (Component.addField known generics args c f).dependencies =
        (nestedSchemaOf known (f.type.substitute generics args) c.dependencies).2 := rfl
    rw [List.foldl_cons, ih, hfield, contains_nestedSchemaOf, or_assoc]
    simp only [mem_mentioned_cons, or_and_right, exists_or]

/-- A component depends on the known types that its shape mentions. -/
theorem Component.contains_dependencies {known : TypeExpr → Bool} {t : TypeExpr} {shape : Shape}
    {key : String} :
    (Component.of known t shape).dependencies.contains key = true ↔
      ∃ u ∈ shape.mentioned t.args, known u = true ∧ u.refKey = key := by
  cases shape with
  | struct generics fields =>
    exact (contains_foldl_addField _).trans (or_iff_right Bool.false_ne_true)
  | newtype inner =>
    simp only [mem_mentioned_newtype]
    exact contains_nestedSchemaOf.trans (or_iff_right Bool.false_ne_true)
  | enum names =>
    refine iff_of_false Bool.false_ne_true ?_
    rintro ⟨u, hu, -⟩
    cases hu

/-! ## Using types -/

namespace Resolver

variable (resolver : Resolver)

/-- The resolver has a shape for the type. -/
def knows (t : TypeExpr) : Bool := (resolver t.name).isSome

/-- The component of a known type, from its own shape and the resolver alone. -/
def component? (t : TypeExpr) : Option Component :=
  (resolver t.name).map (Component.of resolver.knows t)

/-- The component of `t` refers to that of `u`. -/
def Uses (t u : TypeExpr) : Prop :=
  ∃ shape, resolver t.name = some shape ∧ u ∈ shape.mentioned t.args ∧ resolver.knows u = true

/-- Whoever has the component of `t` needs that of `u` as well. -/
def Reaches : TypeExpr → TypeExpr → Prop := Relation.ReflTransGen resolver.Uses

end Resolver

variable {resolver : Resolver} {t u : TypeExpr}

theorem Resolver.knows_of_eq_some {shape : Shape} (hs : resolver t.name = some shape) :
    resolver.knows t = true := by
  rw [knows, hs, Option.isSome_some]

theorem Resolver.component?_eq_some {c : Component} :
    resolver.component? t = some c ↔
      ∃ shape, resolver t.name = some shape ∧ Component.of resolver.knows t shape = c :=
  Option.map_eq_some_iff

theorem Resolver.Uses.wellNamed (hr : resolver.WellNamed) (ht : t.WellNamed)
    (h : resolver.Uses t u) : u.WellNamed := by
  obtain ⟨shape, hs, hu, -⟩ := h
  exact hr.mentioned hs (TypeExpr.wellNamed_iff.1 ht).2 hu

theorem Resolver.Reaches.wellNamed (hr : resolver.WellNamed) (ht : t.WellNamed)
    (h : resolver.Reaches t u) : u.WellNamed := by
  induction h with
  | refl => exact ht
  | tail _ huse ih => exact huse.wellNamed hr ih

end EndpointDocs
