import EndpointDocs.Schema.Json

/-!
# The fields of a schema

    field value ──write?──▶ JSON ──read?──▶ field value

A schema is the record of its fields: `get` and `set` are a lens for each of them (`get_set`,
`get_set_of_ne`), and two schemas with the same fields are equal (`ext_get`). In JSON each field is
written on its own (`toJson_eq`) and read on its own (`ofFields?_cons`), so that a list of fields
that names all those of a schema is read as the schema, whatever their order (`ofFields?_eq_some`).

The records of other modules are looked at field by field as they stand. A schema has eleven fields
that are all written in the same manner, and with a type of fields this is said once.
-/

namespace EndpointDocs.Schema

/-- The fields of a schema, in the order in which they are written. -/
inductive Field where
  | type | format | description | properties | required | items | additionalProperties | values
  | reference | anyOf | sample
deriving DecidableEq

namespace Field

/-- All fields, in the order of the type. -/
def list : List Field :=
  [.type, .format, .description, .properties, .required, .items, .additionalProperties, .values,
    .reference, .anyOf, .sample]

/-- The type of the values of a field. -/
def Value : Field → Type
  | .type | .format | .description | .reference => Option String
  | .properties => List (String × Schema)
  | .required => List String
  | .items | .additionalProperties => Option Schema
  | .values => Option (List String)
  | .anyOf => Option (List Schema)
  | .sample => Option Json

/-- The name of a field in JSON. -/
def name : Field → String
  | .type => "type"
  | .format => "format"
  | .description => "description"
  | .properties => "properties"
  | .required => "required"
  | .items => "items"
  | .additionalProperties => "additionalProperties"
  | .values => "enum"
  | .reference => "$ref"
  | .anyOf => "anyOf"
  | .sample => "example"

/-- What is written for a value; nothing if the field is left out. -/
def write? : (f : Field) → f.Value → Option Json
  | .type, x | .format, x | .description, x | .reference, x => x.map .string
  | .properties, ps => if ps.isEmpty then none else some (.object (toJsonProperties ps))
  | .required, names => if names.isEmpty then none else some (Json.strings names)
  | .items, x | .additionalProperties, x => x.map toJson
  | .values, x => x.map Json.strings
  | .anyOf, x => x.map fun alternatives => .array (toJsonAll alternatives)
  | .sample, x => x

/-- What is read from a value. A null is read as a field that is not set. -/
def read? : (f : Field) → Json → Option f.Value
  | .type, v | .format, v | .description, v | .reference, v => optionalText? v
  | .properties, v => properties? v
  | .required, v => texts? v
  | .items, v | .additionalProperties, v => optional? v
  | .values, v => optionalTexts? v
  | .anyOf, v => alternatives? v
  | .sample, .null => some none
  | .sample, v => some (some v)

/-- No two fields share a name. -/
theorem name_injective : Function.Injective name := by
  intro f g h
  cases f <;> cases g <;> first | rfl | exact absurd h (by decide)

/-- There are no other fields. -/
theorem mem_list (f : Field) : f ∈ list := by
  cases f <;> decide

end Field

/-! ## Getting and setting

The laws of a record, for fields as values. A schema that agrees with another one in all fields is
that one. -/

/-- The value of a field. -/
def get (s : Schema) : (f : Field) → f.Value
  | .type => s.type
  | .format => s.format
  | .description => s.description
  | .properties => s.properties
  | .required => s.required
  | .items => s.items
  | .additionalProperties => s.additionalProperties
  | .values => s.values
  | .reference => s.reference
  | .anyOf => s.anyOf
  | .sample => s.sample

/-- The schema with another value for the field. -/
def set (s : Schema) : (f : Field) → f.Value → Schema
  | .type, x => { s with type := x }
  | .format, x => { s with format := x }
  | .description, x => { s with description := x }
  | .properties, x => { s with properties := x }
  | .required, x => { s with required := x }
  | .items, x => { s with items := x }
  | .additionalProperties, x => { s with additionalProperties := x }
  | .values, x => { s with values := x }
  | .reference, x => { s with reference := x }
  | .anyOf, x => { s with anyOf := x }
  | .sample, x => { s with sample := x }

variable {s t : Schema}

theorem get_set (s : Schema) (f : Field) (x : f.Value) : (s.set f x).get f = x := by
  cases f <;> rfl

theorem get_set_of_ne (s : Schema) {f g : Field} (h : f ≠ g) (x : f.Value) :
    (s.set f x).get g = s.get g := by
  cases f <;> cases g <;> first | rfl | exact absurd rfl h

/-- Which is how a schema that was read is shown to be the one that was written. -/
theorem ext_get (h : ∀ f, s.get f = t.get f) : s = t := by
  obtain ⟨_, _, _, _, _, _, _, _, _, _, _⟩ := s
  obtain ⟨_, _, _, _, _, _, _, _, _, _, _⟩ := t
  rw [mk.injEq]
  exact ⟨h .type, h .format, h .description, h .properties, h .required, h .items,
    h .additionalProperties, h .values, h .reference, h .anyOf, h .sample⟩

/-! ## Writing

The writer of schemas lists its fields one after the other. Each leaves out what is not set, and the
lemmas on `Json.optional` bring the several ways of doing so into one form. -/

/-- A value that is encoded while it is written, or before. -/
theorem optional_map {α : Type} (name : String) (x : Option α) (encode : α → Json) :
    Json.optional name (x.map encode) id = Json.optional name x encode := by
  cases x <;> rfl

/-- A list that is left out if it is empty. -/
theorem optional_ite (name : String) (omitted : Bool) (v : Json) :
    Json.optional name (if omitted then none else some v) id =
      if omitted then [] else [(name, v)] := by
  cases omitted <;> rfl

theorem toJsonOptional_eq (name : String) (x : Option Schema) :
    toJsonOptional name x = Json.optional name x toJson := by
  cases x <;> rfl

theorem toJsonAlternatives_eq (x : Option (List Schema)) :
    toJsonAlternatives x =
      Json.optional "anyOf" x fun alternatives => .array (toJsonAll alternatives) := by
  cases x <;> rfl

/-- A schema is written field by field. -/
theorem toJson_eq (s : Schema) :
    s.toJson = .object (Field.list.flatMap fun f =>
      Json.optional f.name (f.write? (s.get f)) id) := by
  obtain ⟨type, format, description, properties, required, items, additional, values, reference,
    anyOf, sample⟩ := s
  rw [toJson]
  simp only [Field.list, List.flatMap_cons, List.flatMap_nil, Field.name, Field.write?, get,
    optional_map, optional_ite, toJsonOptional_eq, toJsonAlternatives_eq, List.append_assoc,
    List.append_nil]

/-- The fields of the object that is written are those that are not left out. -/
theorem exists_toJson_eq (s : Schema) : ∃ fields, s.toJson = .object fields ∧
    ∀ p, p ∈ fields ↔ ∃ f : Field, f.name = p.1 ∧ f.write? (s.get f) = some p.2 := by
  refine ⟨_, toJson_eq s, fun p => ?_⟩
  obtain ⟨name, v⟩ := p
  have hmem : ∀ (n : String) (x : Option Json),
      (name, v) ∈ Json.optional n x id ↔ n = name ∧ x = some v := by
    intro n x
    cases x with
    | none => simp [Json.optional]
    | some w => simp [Json.optional, eq_comm]
  simp only [List.mem_flatMap, Field.mem_list, true_and, hmem]

/-! ## Reading

The reader goes through the fields of an object and sets each. The order does not matter as long as
every field is named once or not at all, and what is not named is not set. -/

/-- A field is read on its own and leaves the others as they are. -/
theorem ofFields?_cons (f : Field) (v : Json) (rest : List (String × Json)) (s : Schema) :
    ofFields? ((f.name, v) :: rest) s = (f.read? v).bind fun x => ofFields? rest (s.set f x) := by
  cases f with
  | properties | items | additionalProperties | anyOf =>
    rw [ofFields?]
    rfl
  | type | format | description | reference | required | values =>
    rw [ofFields?]
    exact Option.bind_map
  | sample =>
    rw [ofFields?]
    cases v <;> rfl

/-- Fields of a schema are read as the schema, in any order, if the others are those of the schema
already. The induction is on the fields that are left. -/
theorem ofFields?_eq_some {fields : List (String × Json)}
    (hread : ∀ p ∈ fields, ∃ f : Field, f.name = p.1 ∧ f.read? p.2 = some (t.get f))
    (hrest : ∀ f : Field, f.name ∉ fields.map Prod.fst → s.get f = t.get f) :
    ofFields? fields s = some t := by
  induction fields generalizing s with
  | nil =>
    have hsame : s = t := ext_get fun f => hrest f List.not_mem_nil
    rw [ofFields?, hsame]
  | cons p rest ih =>
    obtain ⟨⟨f, hname, hf⟩, hreadRest⟩ := List.forall_mem_cons.1 hread
    obtain ⟨_, v⟩ := p
    subst hname
    rw [ofFields?_cons, hf, Option.bind_some]
    refine ih hreadRest fun g hg => ?_
    -- the field that was read has its value, and the others wait for theirs
    by_cases hfg : f = g
    · subst hfg
      exact get_set s f _
    · rw [get_set_of_ne s hfg]
      refine hrest g fun hmem => ?_
      rw [List.map_cons, List.mem_cons] at hmem
      rcases hmem with hsame | hmem
      · exact hfg (Field.name_injective hsame.symm)
      · exact hg hmem

end EndpointDocs.Schema
