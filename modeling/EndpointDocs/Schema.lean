import EndpointDocs.Json.Value

/-!
# Schemas

A schema describes the values of a type: a plain type, a reference to a component of the document,
or a union of alternative shapes (`anyOf`).

Two schemas have the same *shape* if they agree apart from the example at their top. `widen` makes a
schema accept a further shape: a shape that is known already is not repeated, and only lends its
example to the known one if that has none.
-/

namespace EndpointDocs

/-- A fragment of a schema; `properties` are in ascending order. -/
structure Schema where
  type : Option String := none
  format : Option String := none
  description : Option String := none
  properties : List (String × Schema) := []
  required : List String := []
  items : Option Schema := none
  additionalProperties : Option Schema := none
  values : Option (List String) := none
  reference : Option String := none
  anyOf : Option (List Schema) := none
  sample : Option Json := none
deriving Inhabited, Repr

namespace Schema

/-! ### Building -/

/-- A schema with only a type and perhaps a format. -/
def typed (type : String) (format : Option String := none) : Schema :=
  { type := some type, format }

/-- A free-form object, which also stands for a type that nothing is known of. -/
def object : Schema := typed "object"

def array (items : Schema) : Schema := { typed "array" with items := some items }

def map (values : Schema) : Schema := { object with additionalProperties := some values }

def componentsPrefix : String := "#/components/schemas/"

def component (key : String) : Schema := { reference := some (componentsPrefix ++ key) }

def union (alternatives : List Schema) : Schema := { anyOf := some alternatives }

/-! ### Views -/

def afterPrefix? : List Char → List Char → Option (List Char)
  | [], cs => some cs
  | p :: ps, c :: cs => if p = c then afterPrefix? ps cs else none
  | _ :: _, [] => none

/-- The key of the component that a reference names. -/
def refKey? (s : Schema) : Option String :=
  s.reference.bind fun r =>
    (afterPrefix? componentsPrefix.toList r.toList).map String.ofList

/-- A bare list of alternatives. -/
def isUnion (s : Schema) : Bool := s.anyOf.isSome && s.type.isNone && s.reference.isNone

/-! ### Equality -/

/-- Absent values are the same, present ones if they are. -/
def sameSample : Option Json → Option Json → Bool
  | none, none => true
  | some a, some b => a.same b
  | _, _ => false

mutual

/-- Equality of all parts; numbers in examples are compared by value. -/
def same : Schema → Schema → Bool
  | ⟨t₁, f₁, d₁, p₁, r₁, i₁, a₁, v₁, ref₁, u₁, s₁⟩,
    ⟨t₂, f₂, d₂, p₂, r₂, i₂, a₂, v₂, ref₂, u₂, s₂⟩ =>
    t₁ == t₂ && f₁ == f₂ && d₁ == d₂ && sameProperties p₁ p₂ && r₁ == r₂ && sameOptional i₁ i₂ &&
      sameOptional a₁ a₂ && v₁ == v₂ && ref₁ == ref₂ && sameAlternatives u₁ u₂ && sameSample s₁ s₂

def sameProperties : List (String × Schema) → List (String × Schema) → Bool
  | [], [] => true
  | (k, a) :: as, (l, b) :: bs => k == l && same a b && sameProperties as bs
  | _, _ => false

def sameOptional : Option Schema → Option Schema → Bool
  | none, none => true
  | some a, some b => same a b
  | _, _ => false

def sameAlternatives : Option (List Schema) → Option (List Schema) → Bool
  | none, none => true
  | some as, some bs => sameAll as bs
  | _, _ => false

def sameAll : List Schema → List Schema → Bool
  | [], [] => true
  | a :: as, b :: bs => same a b && sameAll as bs
  | _, _ => false

end

/-- Equality apart from the example at the top. -/
def sameShape (a b : Schema) : Bool :=
  same { a with sample := none } { b with sample := none }

/-! ### Widening -/

/-- Take the example of `other` if there is none yet. -/
def adoptSample (s other : Schema) : Schema := { s with sample := s.sample <|> other.sample }

/-- Add a shape to a list of alternatives unless it is known. -/
def addAlternative (other : Schema) : List Schema → List Schema
  | [] => [other]
  | known :: rest =>
    if known.sameShape other then known.adoptSample other :: rest
    else known :: addAlternative other rest

/-- Accept `other` as well. -/
def widen (s other : Schema) : Schema :=
  if s.sameShape other then s.adoptSample other
  else
    match s.isUnion, s.anyOf with
    | true, some alternatives => { s with anyOf := some (addAlternative other alternatives) }
    | _, _ => union [s, other]

end Schema

end EndpointDocs
