import Mathlib.Data.List.Basic
import EndpointDocs.Schema

/-!
# Shapes

Two schemas are the same if their canonical forms are equal (`same_iff`): in an example, zero has a
canonical sign. So having the same shape is an equivalence of schemas, and as the canonical form of
a schema is larger than those of its parts, a union never has the shape of one of its alternatives
(`sameShape_eq_false_of_mem`).

The canonical form is used in proofs only. What is computed with is `same`, which follows two
schemas at once.
-/

namespace EndpointDocs

/-! ## Canonical forms

Values are compared as numbers, so the two zeros are the same though they are written differently.
All else in a schema is compared as it stands. The lemmas follow the data: numbers, values, schemas.
-/

namespace Number.Binary64

/-- The number, of the two zeros the positive one. -/
def canonical (x : Binary64) : Binary64 :=
  { x with negative := x.negative && x.magnitude.significand != 0 }

/-- Apart from zero a number has one form. -/
theorem sameValue_iff (x y : Binary64) : x.sameValue y = true ↔ x.canonical = y.canonical := by
  obtain ⟨s, m⟩ := x
  obtain ⟨t, n⟩ := y
  simp only [sameValue, canonical, Binary64.mk.injEq, Bool.and_eq_true, Bool.or_eq_true, beq_iff_eq]
  constructor
  · rintro ⟨rfl, rfl | hzero⟩
    · exact ⟨rfl, rfl⟩
    · simp [hzero]
  · rintro ⟨hsign, rfl⟩
    by_cases hzero : m.significand = 0
    · exact ⟨rfl, .inr hzero⟩
    · have hnonzero : (m.significand != 0) = true := bne_iff_ne.2 hzero
      rw [hnonzero, Bool.and_true, Bool.and_true] at hsign
      exact ⟨rfl, .inl hsign⟩

end Number.Binary64

/-- Integers have one form only. -/
def JsonNumber.canonical : JsonNumber → JsonNumber
  | .int value => .int value
  | .float value => .float value.canonical

theorem JsonNumber.same_iff (a b : JsonNumber) : a.same b = true ↔ a.canonical = b.canonical := by
  cases a <;> cases b <;> simp [same, canonical, Number.Binary64.sameValue_iff]

namespace Json

mutual

/-- The value with canonical numbers. -/
def canonical : Json → Json
  | .number value => .number value.canonical
  | .array items => .array (canonicalItems items)
  | .object fields => .object (canonicalFields fields)
  | value => value

def canonicalItems : List Json → List Json
  | [] => []
  | v :: rest => canonical v :: canonicalItems rest

def canonicalFields : List (String × Json) → List (String × Json)
  | [] => []
  | (k, v) :: rest => (k, canonical v) :: canonicalFields rest

end

mutual

theorem same_iff : ∀ a b : Json, a.same b = true ↔ a.canonical = b.canonical
  | .null, b => by cases b <;> simp [same, canonical]
  | .bool _, b => by cases b <;> simp [same, canonical]
  | .number _, b => by cases b <;> simp [same, canonical, JsonNumber.same_iff]
  | .string _, b => by cases b <;> simp [same, canonical]
  | .array as, b => by
    cases b with
    | array bs => simp only [same, canonical, array.injEq, sameItems_iff as bs]
    | _ => simp [same, canonical]
  | .object as, b => by
    cases b with
    | object bs => simp only [same, canonical, object.injEq, sameFields_iff as bs]
    | _ => simp [same, canonical]

/-- Item by item; lists of different lengths differ. -/
theorem sameItems_iff : ∀ as bs : List Json,
    sameItems as bs = true ↔ canonicalItems as = canonicalItems bs
  | [], [] => by simp [sameItems, canonicalItems]
  | a :: as, b :: bs => by
    simp only [sameItems, canonicalItems, Bool.and_eq_true, List.cons.injEq, same_iff a b,
      sameItems_iff as bs]
  | [], _ :: _ => by simp [sameItems, canonicalItems]
  | _ :: _, [] => by simp [sameItems, canonicalItems]

/-- Field by field, in the order in which they stand. -/
theorem sameFields_iff : ∀ as bs : List (String × Json),
    sameFields as bs = true ↔ canonicalFields as = canonicalFields bs
  | [], [] => by simp [sameFields, canonicalFields]
  | (k, a) :: as, (l, b) :: bs => by
    simp only [sameFields, canonicalFields, Bool.and_eq_true, beq_iff_eq, List.cons.injEq,
      Prod.mk.injEq, same_iff a b, sameFields_iff as bs]
  | [], (_, _) :: _ => by simp [sameFields, canonicalFields]
  | (_, _) :: _, [] => by simp [sameFields, canonicalFields]

end

end Json

namespace Schema

mutual

/-- The schema with canonical examples. -/
def canonical : Schema → Schema
  | ⟨type, format, description, properties, required, items, additional, values, reference,
      alternatives, sample⟩ =>
    ⟨type, format, description, canonicalProperties properties, required, canonicalOptional items,
      canonicalOptional additional, values, reference, canonicalAlternatives alternatives,
      sample.map Json.canonical⟩

def canonicalProperties : List (String × Schema) → List (String × Schema)
  | [] => []
  | (k, s) :: rest => (k, canonical s) :: canonicalProperties rest

def canonicalOptional : Option Schema → Option Schema
  | none => none
  | some s => some (canonical s)

def canonicalAlternatives : Option (List Schema) → Option (List Schema)
  | none => none
  | some ss => some (canonicalAll ss)

def canonicalAll : List Schema → List Schema
  | [] => []
  | s :: rest => canonical s :: canonicalAll rest

end

/-- An example may be missing in both. -/
theorem sameSample_iff (a b : Option Json) :
    sameSample a b = true ↔ a.map Json.canonical = b.map Json.canonical := by
  cases a <;> cases b <;> simp [sameSample, Json.same_iff]

mutual

theorem same_iff : ∀ a b : Schema, same a b = true ↔ a.canonical = b.canonical
  | ⟨_, _, _, p₁, _, i₁, a₁, _, _, u₁, s₁⟩, ⟨_, _, _, p₂, _, i₂, a₂, _, _, u₂, s₂⟩ => by
    simp only [same, canonical, Bool.and_eq_true, beq_iff_eq, mk.injEq, and_assoc,
      sameProperties_iff p₁ p₂, sameOptional_iff i₁ i₂, sameOptional_iff a₁ a₂,
      sameAlternatives_iff u₁ u₂, sameSample_iff s₁ s₂]

/-- Properties are ordered by name, so they are compared in order. -/
theorem sameProperties_iff : ∀ as bs : List (String × Schema),
    sameProperties as bs = true ↔ canonicalProperties as = canonicalProperties bs
  | [], [] => by simp [sameProperties, canonicalProperties]
  | (k, a) :: as, (l, b) :: bs => by
    simp only [sameProperties, canonicalProperties, Bool.and_eq_true, beq_iff_eq, List.cons.injEq,
      Prod.mk.injEq, same_iff a b, sameProperties_iff as bs]
  | [], (_, _) :: _ => by simp [sameProperties, canonicalProperties]
  | (_, _) :: _, [] => by simp [sameProperties, canonicalProperties]

theorem sameOptional_iff : ∀ a b : Option Schema,
    sameOptional a b = true ↔ canonicalOptional a = canonicalOptional b
  | none, none => by simp [sameOptional, canonicalOptional]
  | some a, some b => by
    simp only [sameOptional, canonicalOptional, Option.some.injEq, same_iff a b]
  | none, some _ => by simp [sameOptional, canonicalOptional]
  | some _, none => by simp [sameOptional, canonicalOptional]

theorem sameAlternatives_iff : ∀ as bs : Option (List Schema),
    sameAlternatives as bs = true ↔ canonicalAlternatives as = canonicalAlternatives bs
  | none, none => by simp [sameAlternatives, canonicalAlternatives]
  | some as, some bs => by
    simp only [sameAlternatives, canonicalAlternatives, Option.some.injEq, sameAll_iff as bs]
  | none, some _ => by simp [sameAlternatives, canonicalAlternatives]
  | some _, none => by simp [sameAlternatives, canonicalAlternatives]

theorem sameAll_iff : ∀ as bs : List Schema,
    sameAll as bs = true ↔ canonicalAll as = canonicalAll bs
  | [], [] => by simp [sameAll, canonicalAll]
  | a :: as, b :: bs => by
    simp only [sameAll, canonicalAll, Bool.and_eq_true, List.cons.injEq, same_iff a b,
      sameAll_iff as bs]
  | [], _ :: _ => by simp [sameAll, canonicalAll]
  | _ :: _, [] => by simp [sameAll, canonicalAll]

end

/-! ## The shape of a schema

That a relation is given by equality of something makes it an equivalence. The following lemmas are
what later proofs use of shapes. -/

variable {s t u : Schema}

/-- The canonical form of the schema without its example. -/
def shape (s : Schema) : Schema := canonical { s with sample := none }

/-- The same shape is an equal canonical form without the example. -/
theorem sameShape_iff : s.sameShape t = true ↔ s.shape = t.shape := same_iff _ _

theorem sameShape_refl (s : Schema) : s.sameShape s = true := sameShape_iff.2 rfl

theorem sameShape_symm (h : s.sameShape t = true) : t.sameShape s = true :=
  sameShape_iff.2 (sameShape_iff.1 h).symm

theorem sameShape_comm (s t : Schema) : s.sameShape t = t.sameShape s :=
  Bool.eq_iff_iff.2 ⟨sameShape_symm, sameShape_symm⟩

theorem sameShape_trans (h : s.sameShape t = true) (h' : t.sameShape u = true) :
    s.sameShape u = true :=
  sameShape_iff.2 ((sameShape_iff.1 h).trans (sameShape_iff.1 h'))

/-- Schemas of one shape have the shape of the same schemas. -/
theorem sameShape_congr (h : s.sameShape t = true) (u : Schema) : s.sameShape u = t.sameShape u :=
  Bool.eq_iff_iff.2 ⟨sameShape_trans (sameShape_symm h), sameShape_trans h⟩

@[simp]
theorem sameShape_adoptSample_left (s other t : Schema) :
    (s.adoptSample other).sameShape t = s.sameShape t := rfl

@[simp]
theorem sameShape_adoptSample_right (s t other : Schema) :
    s.sameShape (t.adoptSample other) = s.sameShape t := rfl

/-- The example is there already. -/
theorem adoptSample_self (s : Schema) : s.adoptSample s = s := by
  obtain ⟨_, _, _, _, _, _, _, _, _, _, sample⟩ := s
  cases sample <;> rfl

/-- An example that was taken is not replaced. -/
theorem adoptSample_adoptSample (s other : Schema) :
    (s.adoptSample other).adoptSample other = s.adoptSample other := by
  obtain ⟨_, _, _, _, _, _, _, _, _, _, sample⟩ := s
  cases sample with
  | some value => rfl
  | none => cases h : other.sample <;> simp [adoptSample, h]

theorem isUnion_adoptSample (s other : Schema) : (s.adoptSample other).isUnion = s.isUnion := rfl

/-- Whether a schema is a union is told by its shape. -/
theorem isUnion_shape (s : Schema) : s.shape.isUnion = s.isUnion := by
  obtain ⟨_, _, _, _, _, _, _, _, _, alternatives, _⟩ := s
  cases alternatives <;> simp [shape, canonical, canonicalAlternatives, isUnion]

theorem isUnion_eq_of_sameShape (h : s.sameShape t = true) : s.isUnion = t.isUnion := by
  rw [← isUnion_shape s, sameShape_iff.1 h, isUnion_shape]

/-! ## Unions and their alternatives

To accept a union and one of its alternatives in turn never makes one out of the other. This is the
only place where the size of a schema is needed. -/

/-- The canonical forms are taken one by one. -/
theorem mem_canonicalAll {ss : List Schema} (h : s ∈ ss) : s.canonical ∈ canonicalAll ss := by
  induction ss with
  | nil => cases h
  | cons t rest ih =>
    rw [canonicalAll]
    rcases List.mem_cons.1 h with rfl | h
    · exact List.mem_cons_self
    · exact List.mem_cons_of_mem _ (ih h)

/-- A shape has no example, so it is no larger than the schema. -/
theorem sizeOf_shape_le (s : Schema) : sizeOf s.shape ≤ sizeOf s.canonical := by
  obtain ⟨_, _, _, _, _, _, _, _, _, _, sample⟩ := s
  cases sample <;> simp [shape, canonical]

/-- The alternatives are inside the schema. -/
theorem sizeOf_shape_lt_of_mem {alternatives : List Schema} (h : s.anyOf = some alternatives)
    (ht : t ∈ alternatives) : sizeOf t.shape < sizeOf s.shape := by
  have hmember : sizeOf t.canonical < sizeOf (canonicalAll alternatives) :=
    List.sizeOf_lt_of_mem (mem_canonicalAll ht)
  have hunion : sizeOf (canonicalAll alternatives) < sizeOf s.shape := by
    obtain ⟨_, _, _, _, _, _, _, _, _, _, _⟩ := s
    cases h
    simp only [shape, canonical, canonicalAlternatives, mk.sizeOf_spec, Option.some.sizeOf_spec]
    omega
  have hshape := sizeOf_shape_le t
  omega

/-- A union is larger than each of its alternatives. -/
theorem sameShape_eq_false_of_mem {alternatives : List Schema} (h : s.anyOf = some alternatives)
    (ht : t ∈ alternatives) : s.sameShape t = false := by
  refine Bool.eq_false_iff.2 fun hsame => ?_
  have hlt := sizeOf_shape_lt_of_mem h ht
  rw [sameShape_iff.1 hsame] at hlt
  exact Nat.lt_irrefl _ hlt

end Schema

end EndpointDocs
