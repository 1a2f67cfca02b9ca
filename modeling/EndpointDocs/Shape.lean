import EndpointDocs.KeyMap
import EndpointDocs.Source.Item

/-!
# Shapes of types

A shape says what the values of a user-defined type look like. A `Resolver` knows the shapes of
types by their names. `Resolver.ofSources` answers from source files: the first structure or
enumeration of that name, file after file, with the contents of a module at the module's place.
-/

namespace EndpointDocs

/-- A field with its written name and its documentation. -/
structure FieldShape where
  name : String
  type : TypeExpr
  description : Option String := none
deriving Repr, Inhabited

/-- A field is required unless its type is optional. -/
def FieldShape.isRequired (f : FieldShape) : Bool := f.type.name != "Option"

/-- The shape of a user-defined type. -/
inductive Shape where
  /-- Named fields, in which the type parameters may stand. -/
  | struct (generics : List String) (fields : List FieldShape)
  /-- One value of another type. -/
  | newtype (inner : TypeExpr)
  /-- One of the given names. -/
  | enum (names : List String)
deriving Repr, Inhabited

/-- The shapes of types by name, without path and arguments. -/
abbrev Resolver := String → Option Shape

namespace Shape

open Source

def ofField? (f : Field) : Option FieldShape :=
  f.name.bind fun name =>
    if f.naming.skipped then none
    else some ⟨f.naming.renamed.getD name, f.type, f.description⟩

def nameOfVariant? (v : EnumVariant) : Option String :=
  if v.naming.skipped then none else some (v.naming.renamed.getD v.name)

/-- The shape of a structure by its fields. -/
def ofFields (generics : List String) : Fields → Shape
  | .unnamed [f] => .newtype f.type
  | .named fields => .struct generics (fields.filterMap ofField?)
  | _ => .struct generics []

def ofItem? : Item → Option Shape
  | .struct _ generics fields => some (ofFields generics fields)
  | .enum _ variants => some (.enum (variants.filterMap nameOfVariant?))
  | _ => none

def findItem? (name : String) : List Item → Option Item
  | [] => none
  | .struct n ps fs :: rest => if n = name then some (.struct n ps fs) else findItem? name rest
  | .enum n vs :: rest => if n = name then some (.enum n vs) else findItem? name rest
  | .module items :: rest => findItem? name items <|> findItem? name rest
  | .other :: rest => findItem? name rest

end Shape

/-- Answers from the items of source files. -/
def Resolver.ofSources (files : List (List Source.Item)) : Resolver := fun name =>
  (files.findSome? (Shape.findItem? name)).bind Shape.ofItem?

def Resolver.ofMap (shapes : KeyMap String Shape) : Resolver := shapes.get?

end EndpointDocs
