import EndpointDocs.Proofs.Json.Sorting
import EndpointDocs.Proofs.Schema.Fields

/-!
# Reading undoes writing

    Schema ──toJson──▶ JSON ──ofJson?──▶ Schema

A schema that is written is read back field by field, down to its innermost parts and whatever the
order of the fields. Only an example that is null does not come back, as a null field is read as one
that is not set (`optional?_arranged`); so a schema is read back exactly if no part of it has such
an example (`ofJson?_toJson_iff`).
-/

namespace EndpointDocs.Schema

variable {s t u : Schema}

/-! ## Parts

A schema holds schemas in four places. They are gathered in one list, so that an induction over
schemas has one hypothesis about all of its parts (`induction_parts`). -/

/-- The schemas right inside a schema. -/
def parts (s : Schema) : List Schema :=
  s.properties.map Prod.snd ++ s.items.toList ++ s.additionalProperties.toList ++ s.anyOf.getD []

theorem sizeOf_lt_of_mem_parts (h : t ∈ s.parts) : sizeOf t < sizeOf s := by
  obtain ⟨_, _, _, properties, _, items, additional, _, _, anyOf, _⟩ := s
  rw [parts, List.mem_append, List.mem_append, List.mem_append] at h
  obtain ((h | h) | h) | h := h
  -- a property, the items, the further properties, an alternative
  · obtain ⟨⟨name, _⟩, hp, rfl⟩ := List.mem_map.1 h
    have := List.sizeOf_lt_of_mem hp
    simp only [Prod.mk.sizeOf_spec] at this
    simp only [mk.sizeOf_spec]
    omega
  · obtain rfl := Option.mem_toList.1 h
    simp only [mk.sizeOf_spec, Option.some.sizeOf_spec]
    omega
  · obtain rfl := Option.mem_toList.1 h
    simp only [mk.sizeOf_spec, Option.some.sizeOf_spec]
    omega
  · cases anyOf with
    | none => cases h
    | some alternatives =>
      have := List.sizeOf_lt_of_mem (show t ∈ alternatives from h)
      simp only [mk.sizeOf_spec, Option.some.sizeOf_spec]
      omega

/-- What holds of a schema as soon as it holds of its parts holds of every schema. -/
theorem induction_parts {motive : Schema → Prop}
    (step : ∀ s, (∀ t ∈ s.parts, motive t) → motive s) (s : Schema) : motive s := by
  induction hsize : sizeOf s using Nat.strongRecOn generalizing s with
  | _ n ih =>
    subst hsize
    exact step s fun t ht => ih (sizeOf t) (sizeOf_lt_of_mem_parts ht) t rfl

/-- The predicate holds of a schema and of all schemas in it, at every level. -/
inductive Everywhere (P : Schema → Prop) : Schema → Prop
  | intro {s : Schema} (self : P s) (parts : ∀ t ∈ s.parts, Everywhere P t) : Everywhere P s

/-- Unfolded by one level. -/
theorem everywhere_iff {P : Schema → Prop} :
    Everywhere P s ↔ P s ∧ ∀ t ∈ s.parts, Everywhere P t := by
  refine ⟨?_, fun h => .intro h.1 h.2⟩
  rintro ⟨hself, hparts⟩
  exact ⟨hself, hparts⟩

/-- The maps right in a schema are in ascending order: its properties and the objects of its
example. -/
structure Ordered (s : Schema) : Prop where
  properties : Ascending s.properties
  sample : ∀ v ∈ s.sample, v.Sorted

/-- The example of a schema is not null. -/
def HasNoNull (s : Schema) : Prop := s.sample ≠ some .null

/-! ## Examples that are null

What is read back is described first: `withoutNulls` recurses through the four places of parts. Its
equations turn the recursion into maps, after which a schema that stays as it is can be told part by
part. -/

/-- An example, unless it is null. -/
def nonNull : Option Json → Option Json
  | some .null => none
  -- an example is JSON, of which only null is taken for a field that is not set
  | sample => sample

mutual

/-- The schema without the examples that are null, at every level. -/
def withoutNulls : Schema → Schema
  | ⟨type, format, description, properties, required, items, additional, values, reference,
      alternatives, sample⟩ =>
    ⟨type, format, description, withoutNullsProperties properties, required,
      withoutNullsOptional items, withoutNullsOptional additional, values, reference,
      withoutNullsAlternatives alternatives, nonNull sample⟩

def withoutNullsProperties : List (String × Schema) → List (String × Schema)
  | [] => []
  | (k, s) :: rest => (k, withoutNulls s) :: withoutNullsProperties rest

def withoutNullsOptional : Option Schema → Option Schema
  | none => none
  | some s => some (withoutNulls s)

def withoutNullsAlternatives : Option (List Schema) → Option (List Schema)
  | none => none
  | some ss => some (withoutNullsAll ss)

def withoutNullsAll : List Schema → List Schema
  | [] => []
  | s :: rest => withoutNulls s :: withoutNullsAll rest

end

theorem withoutNullsProperties_eq_map (properties : List (String × Schema)) :
    withoutNullsProperties properties = properties.map fun p => (p.1, p.2.withoutNulls) := by
  induction properties with
  | nil => rfl
  | cons p rest ih => rw [withoutNullsProperties, ih, List.map_cons]

theorem withoutNullsOptional_eq_map (x : Option Schema) :
    withoutNullsOptional x = x.map withoutNulls := by
  cases x <;> rfl

theorem withoutNullsAll_eq_map (ss : List Schema) : withoutNullsAll ss = ss.map withoutNulls := by
  induction ss with
  | nil => rfl
  | cons s rest ih => rw [withoutNullsAll, ih, List.map_cons]

/-- All recursive parts at once. -/
theorem withoutNulls_eq (s : Schema) : s.withoutNulls = { s with
    properties := s.properties.map fun p => (p.1, p.2.withoutNulls)
    items := s.items.map withoutNulls
    additionalProperties := s.additionalProperties.map withoutNulls
    anyOf := s.anyOf.map fun ss => ss.map withoutNulls
    sample := nonNull s.sample } := by
  obtain ⟨_, _, _, _, _, _, _, _, _, anyOf, _⟩ := s
  rw [withoutNulls, withoutNullsProperties_eq_map, withoutNullsOptional_eq_map,
    withoutNullsOptional_eq_map]
  cases anyOf with
  | none => rfl
  | some ss => rw [withoutNullsAlternatives, withoutNullsAll_eq_map, Option.map_some]

theorem nonNull_eq_self_iff {sample : Option Json} :
    nonNull sample = sample ↔ sample ≠ some .null := by
  unfold nonNull
  split
  · simp
  · next h => exact ⟨fun _ => h, fun _ => rfl⟩

theorem map_eq_self_iff {α : Type} {f : α → α} {l : List α} :
    l.map f = l ↔ ∀ a ∈ l, f a = a := by
  calc l.map f = l ↔ l.map f = l.map id := by rw [List.map_id]
    _ ↔ ∀ a ∈ l, f a = a := List.map_inj_left

theorem map_eq_self_iff_toList {α : Type} {f : α → α} {x : Option α} :
    x.map f = x ↔ ∀ a ∈ x.toList, f a = a := by
  cases x <;> simp

/-- Nothing is taken out of a schema if nothing is taken out of its parts. -/
theorem withoutNulls_eq_self_iff_parts (s : Schema) :
    s.withoutNulls = s ↔ s.HasNoNull ∧ ∀ t ∈ s.parts, t.withoutNulls = t := by
  obtain ⟨_, _, _, properties, _, items, additional, _, _, anyOf, sample⟩ := s
  -- the names of properties stay, so only their schemas matter
  have hproperties : properties.map (fun p => (p.1, p.2.withoutNulls)) = properties ↔
      ∀ t ∈ properties.map Prod.snd, t.withoutNulls = t := by
    rw [map_eq_self_iff, List.forall_mem_map]
    exact forall₂_congr fun p _ => by rw [Prod.ext_iff, eq_self, true_and]
  have hanyOf : anyOf.map (fun ss => ss.map withoutNulls) = anyOf ↔
      ∀ t ∈ anyOf.getD [], t.withoutNulls = t := by
    cases anyOf <;> simp [map_eq_self_iff]
  rw [withoutNulls_eq, mk.injEq]
  simp only [true_and, parts, List.forall_mem_append, hproperties, map_eq_self_iff_toList, hanyOf,
    nonNull_eq_self_iff]
  tauto

/-- Nothing is taken out if no part has an example that is null. The induction is on the parts. -/
theorem withoutNulls_eq_self_iff (s : Schema) :
    s.withoutNulls = s ↔ Everywhere HasNoNull s := by
  induction s using induction_parts with
  | step s ih =>
    rw [withoutNulls_eq_self_iff_parts, everywhere_iff]
    exact and_congr_right fun _ => forall₂_congr ih

/-! ## Reading the fields

The reader looks up each field by its name among those of the object, so the order in which they
stand does not matter. That is expressed by `w`, which may reorder the fields of objects at every
level (`Json.Arranges`). -/

section Reading

open Json

variable {w : Json → Json} {f : Field} {v : Json}

theorem toJsonProperties_eq_map (properties : List (String × Schema)) :
    toJsonProperties properties = properties.map fun p => (p.1, p.2.toJson) := by
  induction properties with
  | nil => rfl
  | cons p rest ih => rw [toJsonProperties, ih, List.map_cons]

theorem toJsonAll_eq_map (ss : List Schema) : toJsonAll ss = ss.map toJson := by
  induction ss with
  | nil => rfl
  | cons s rest ih => rw [toJsonAll, ih, List.map_cons]

/-- The properties are read one by one. -/
theorem entries?_map {properties : List (String × Schema)}
    (h : ∀ p ∈ properties, optional? (w p.2.toJson) = some (some p.2.withoutNulls)) :
    entries? (properties.map fun p => (p.1, w p.2.toJson)) =
      some (properties.map fun p => (p.1, p.2.withoutNulls)) := by
  induction properties with
  | nil => rfl
  | cons p rest ih =>
    obtain ⟨hp, hrest⟩ := List.forall_mem_cons.1 h
    rw [List.map_cons, entries?, hp, ih hrest]
    rfl

/-- So are the alternatives. -/
theorem all?_map {ss : List Schema}
    (h : ∀ s ∈ ss, optional? (w s.toJson) = some (some s.withoutNulls)) :
    all? (ss.map fun s => w s.toJson) = some (ss.map withoutNulls) := by
  induction ss with
  | nil => rfl
  | cons s rest ih =>
    obtain ⟨hs, hrest⟩ := List.forall_mem_cons.1 h
    rw [List.map_cons, all?, hs, ih hrest]
    rfl

theorem texts?_strings (texts : List String) : texts? (strings texts) = some texts := by
  show (texts.map Json.string).mapM _ = some texts
  induction texts with
  | nil => rfl
  | cons t rest ih =>
    rw [List.map_cons, List.mapM_cons, ih]
    rfl

/-- A field that is written is read back if the parts of the schema are, without null examples. -/
theorem read?_of_write? (hw : Arranges w) (hs : s.Ordered)
    (hparts : ∀ t ∈ s.parts, optional? (w t.toJson) = some (some t.withoutNulls))
    (hv : f.write? (s.get f) = some v) : f.read? (w v) = some (s.withoutNulls.get f) := by
  simp only [parts, List.forall_mem_append] at hparts
  obtain ⟨⟨⟨hproperties, hitems⟩, hadditional⟩, hanyOf⟩ := hparts
  rw [withoutNulls_eq]
  cases f with
  | type | format | description | reference =>
    obtain ⟨x, hx, rfl⟩ := Option.map_eq_some_iff.1 hv
    rw [hw.text]
    exact congrArg some hx.symm
  -- properties are written as an object, whose fields ascend and so are in order already
  | properties =>
    obtain ⟨-, hv⟩ := Option.ite_none_left_eq_some.1 hv
    have hv : .object (toJsonProperties s.properties) = v := Option.some.inj hv
    have hascending := hs.properties
    have hwritten : Ascending (s.properties.map fun p => (p.1, p.2.toJson)) :=
      List.pairwise_map.2 hascending
    have hread : Ascending (s.properties.map fun p => (p.1, p.2.withoutNulls)) :=
      List.pairwise_map.2 hascending
    rw [← hv, toJsonProperties_eq_map, hw.ascending _ hwritten, List.map_map]
    show (entries? (s.properties.map fun p => (p.1, w p.2.toJson))).map Entries.ofList = _
    rw [entries?_map (List.forall_mem_map.1 hproperties), Option.map_some,
      Entries.ofList_of_ascending hread]
    rfl
  | required =>
    obtain ⟨-, hv⟩ := Option.ite_none_left_eq_some.1 hv
    have hv : strings s.required = v := Option.some.inj hv
    rw [← hv, hw.texts]
    exact texts?_strings s.required
  | items =>
    obtain ⟨x, hx, rfl⟩ := Option.map_eq_some_iff.1 hv
    have hx : s.items = some x := hx
    rw [hx] at hitems ⊢
    exact hitems x List.mem_cons_self
  | additionalProperties =>
    obtain ⟨x, hx, rfl⟩ := Option.map_eq_some_iff.1 hv
    have hx : s.additionalProperties = some x := hx
    rw [hx] at hadditional ⊢
    exact hadditional x List.mem_cons_self
  | values =>
    obtain ⟨x, hx, rfl⟩ := Option.map_eq_some_iff.1 hv
    have hx : s.values = some x := hx
    rw [hx, hw.texts]
    exact congrArg (Option.map some) (texts?_strings x)
  | anyOf =>
    obtain ⟨x, hx, rfl⟩ := Option.map_eq_some_iff.1 hv
    have hx : s.anyOf = some x := hx
    rw [hx] at hanyOf ⊢
    rw [toJsonAll_eq_map, hw.items, List.map_map]
    exact congrArg (Option.map some) (all?_map hanyOf)
  | sample =>
    have hv : s.sample = some v := hv
    rw [hv, hw.sorted v (hs.sample v hv)]
    cases v <;> rfl

/-- A list is left out if it is empty. -/
theorem eq_nil_of_omitted {α : Type} {l : List α} {v : Json}
    (h : (if l.isEmpty then none else some v) = none) : l = [] := by
  cases l with
  | nil => rfl
  | cons a l => cases h

/-- A field that is left out is one that is not set. -/
theorem get_withoutNulls_of_write? (hv : f.write? (s.get f) = none) :
    s.withoutNulls.get f = ({} : Schema).get f := by
  rw [withoutNulls_eq]
  cases f with
  | type | format | description | reference | values => exact Option.map_eq_none_iff.1 hv
  | properties => exact List.map_eq_nil_iff.2 (eq_nil_of_omitted hv)
  | required => exact eq_nil_of_omitted hv
  | items | additionalProperties | anyOf =>
    exact Option.map_eq_none_iff.2 (Option.map_eq_none_iff.1 hv)
  | sample =>
    have hv : s.sample = none := hv
    rw [hv]
    rfl

/-! ## Reading the whole

By induction on the parts: the fields that were written are read with the parts that were read, and
the ones that were left out are those that an empty schema has. -/

/-- What is read from a schema that was written, whatever the order of the fields. The induction is
on the parts of the schema. -/
theorem optional?_arranged (hw : Arranges w) (hs : Everywhere Ordered s) :
    optional? (w s.toJson) = some (some s.withoutNulls) := by
  induction hs with
  | @intro s hs _ hparts =>
    obtain ⟨fields, hfields, hmem⟩ := exists_toJson_eq s
    obtain ⟨arranged, harranged, hfrom, hkeys⟩ := hw.fields fields
    rw [hfields, harranged, optional?, ofFields?_eq_some (t := s.withoutNulls), Option.map_some]
    -- every field of the arranged object is one that was written
    · intro p hp
      obtain ⟨q, hq, rfl⟩ := hfrom p hp
      obtain ⟨f, hname, hwrite⟩ := (hmem q).1 hq
      exact ⟨f, hname, read?_of_write? hw hs hparts hwrite⟩
    · intro f hf
      refine (get_withoutNulls_of_write? ?_).symm
      cases hwrite : f.write? (s.get f) with
      | none => rfl
      | some v => exact absurd (hkeys _ ((hmem (f.name, v)).2 ⟨f, rfl, hwrite⟩)) hf

end Reading

/-- A written schema is read back without its null examples, whether the fields stand as they are
written or in ascending order; so reading undoes writing for exactly the schemas that have none. -/
theorem ofJson?_toJson_iff (hs : Everywhere Ordered s) : ∀ v ∈ [s.toJson, s.toJson.sortKeys],
    ofJson? v = some s.withoutNulls ∧ (ofJson? v = some s ↔ Everywhere HasNoNull s) := by
  have hread : ∀ w : Json → Json, Json.Arranges w → ofJson? (w s.toJson) = some s.withoutNulls ∧
      (ofJson? (w s.toJson) = some s ↔ Everywhere HasNoNull s) := by
    intro w hw
    rw [ofJson?, optional?_arranged hw hs, ← withoutNulls_eq_self_iff]
    exact ⟨rfl, Option.some_inj⟩
  simp only [List.forall_mem_cons]
  exact ⟨hread id Json.arranges_id, hread Json.sortKeys Json.arranges_sortKeys,
    List.forall_mem_nil _⟩

/-! ### An order

A schema with every kind of part, and one whose example is null. An object that holds a null is not
null itself. -/

/-- A line of an order: names with a text or a number. -/
def lineSchema : Schema :=
  Schema.map (Schema.union [Schema.typed "string",
    { Schema.typed "integer" (some "int64") with sample := some (.number (.int 3)) }])

/-- An order with lines and a total, and an example that holds a null. -/
def orderSchema : Schema where
  type := some "object"
  properties := [("lines", Schema.array lineSchema),
    ("total", { Schema.typed "number" with description := some "In euros." })]
  required := ["total"]
  sample := some (.object [("lines", .array [.object [("pen", .null)]]), ("total", .string "")])

theorem Everywhere.of_parts {P : Schema → Prop} {ts : List Schema} (hparts : s.parts = ts)
    (hself : P s) (h : ts.Forall (Everywhere P)) : Everywhere P s :=
  .intro hself fun t ht => List.forall_iff_forall_mem.1 h t (hparts ▸ ht)

theorem ordered_of_bare (hproperties : s.properties = []) (hsample : s.sample = none) :
    s.Ordered where
  properties := by
    rw [hproperties]
    exact List.Pairwise.nil
  sample v hv := by
    rw [hsample] at hv
    cases hv

theorem everywhere_ordered_orderSchema : Everywhere Ordered orderSchema := by
  have hline : Everywhere Ordered lineSchema := by
    refine .of_parts rfl (ordered_of_bare rfl rfl)
      (Everywhere.of_parts rfl (ordered_of_bare rfl rfl) ⟨?_, ?_⟩)
    · exact .of_parts rfl (ordered_of_bare rfl rfl) trivial
    · exact .of_parts rfl ⟨List.Pairwise.nil, by rintro _ ⟨⟩; trivial⟩ trivial
  refine .of_parts rfl ⟨by decide, ?_⟩ ⟨?_, ?_⟩
  · rintro _ ⟨⟩
    exact ⟨by decide, ⟨⟨List.pairwise_singleton _ _, trivial, trivial⟩, trivial⟩, trivial, trivial⟩
  · exact Everywhere.of_parts rfl (ordered_of_bare rfl rfl) hline
  · exact Everywhere.of_parts rfl (ordered_of_bare rfl rfl) trivial

theorem everywhere_hasNoNull_orderSchema : Everywhere HasNoNull orderSchema := by
  have hline : Everywhere HasNoNull lineSchema := by
    refine .of_parts rfl nofun (Everywhere.of_parts rfl nofun ⟨?_, ?_⟩)
    · exact .of_parts rfl nofun trivial
    · exact .of_parts rfl nofun trivial
  refine .of_parts rfl nofun ⟨?_, ?_⟩
  · exact Everywhere.of_parts rfl nofun hline
  · exact Everywhere.of_parts rfl nofun trivial

theorem ofJson?_orderSchema : Everywhere Ordered orderSchema ∧ Everywhere HasNoNull orderSchema ∧
    ofJson? orderSchema.toJson = some orderSchema ∧
      ofJson? orderSchema.toJson.sortKeys = some orderSchema := by
  have hordered := everywhere_ordered_orderSchema
  have hnull := everywhere_hasNoNull_orderSchema
  have hread := ofJson?_toJson_iff hordered
  refine ⟨hordered, hnull, ?_, ?_⟩
  · exact (hread _ List.mem_cons_self).2.2 hnull
  · exact (hread _ (List.mem_cons_of_mem _ List.mem_cons_self)).2.2 hnull

/-- The schema of a text whose example is null. -/
def nullExample : Schema := { Schema.typed "string" with sample := some .null }

theorem nullExample_lost : ofJson? nullExample.toJson = some (Schema.typed "string") ∧
    ofJson? nullExample.toJson ≠ some nullExample := by
  have hread : ofJson? nullExample.toJson = some (Schema.typed "string") := rfl
  refine ⟨hread, fun hsame => ?_⟩
  rw [hread] at hsame
  cases hsame

end EndpointDocs.Schema
