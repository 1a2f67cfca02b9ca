import EndpointDocs.KeyMap
import EndpointDocs.Number.Binary64

/-!
# JSON values

`Json` is both the free-form value of an example and the tree that a document is written from. An
object lists its fields in the order in which they are written: declaration order for the parts of
a document, ascending order for a free-form value (`Json.Sorted`).
-/

namespace EndpointDocs

open Number

/-- A number: an integer between `-2 ^ 63` and `2 ^ 64 - 1` as written, any other as a
floating-point number. -/
inductive JsonNumber where
  | int (value : Int)
  | float (value : Binary64)
deriving DecidableEq, Repr, Inhabited

inductive Json where
  | null
  | bool (value : Bool)
  | number (value : JsonNumber)
  | string (value : String)
  | array (items : List Json)
  | object (fields : List (String × Json))
deriving Repr, Inhabited

/-- Numbers are the same if they are of one kind and have the same value. -/
def JsonNumber.same : JsonNumber → JsonNumber → Bool
  | .int a, .int b => a == b
  | .float a, .float b => a.sameValue b
  | _, _ => false

namespace Json

mutual

/-- Two values are the same: structural equality, except that the two zeros are equal. -/
def same : Json → Json → Bool
  | .null, .null => true
  | .bool a, .bool b => a == b
  | .number a, .number b => a.same b
  | .string a, .string b => a == b
  | .array as, .array bs => sameItems as bs
  | .object as, .object bs => sameFields as bs
  | _, _ => false

def sameItems : List Json → List Json → Bool
  | [], [] => true
  | a :: as, b :: bs => same a b && sameItems as bs
  | _, _ => false

def sameFields : List (String × Json) → List (String × Json) → Bool
  | [], [] => true
  | (k, a) :: as, (l, b) :: bs => k == l && same a b && sameFields as bs
  | _, _ => false

end

instance : BEq Json := ⟨same⟩

mutual

/-- The value with the fields of every object in ascending order; of a repeated key the last
value stays. -/
def sortKeys : Json → Json
  | .array items => .array (sortItems items)
  | .object fields => .object (Entries.ofList (sortFields fields))
  | value => value

def sortItems : List Json → List Json
  | [] => []
  | v :: rest => sortKeys v :: sortItems rest

def sortFields : List (String × Json) → List (String × Json)
  | [] => []
  | (k, v) :: rest => (k, sortKeys v) :: sortFields rest

end

mutual

/-- The fields of every object ascend. -/
def Sorted : Json → Prop
  | .array items => SortedItems items
  | .object fields => Ascending fields ∧ SortedFields fields
  | _ => True

def SortedItems : List Json → Prop
  | [] => True
  | v :: rest => Sorted v ∧ SortedItems rest

def SortedFields : List (String × Json) → Prop
  | [] => True
  | (_, v) :: rest => Sorted v ∧ SortedFields rest

end

/-! ### Building and reading objects -/

/-- A field that is written only when there is a value. -/
def optional {α : Type} (name : String) (value : Option α) (encode : α → Json) :
    List (String × Json) :=
  match value with
  | some v => [(name, encode v)]
  | none => []

/-- The value of a field; `none` if this is not an object or the field is missing. -/
def field? (name : String) : Json → Option Json
  | .object fields => Entries.find? name fields
  | _ => none

def strings (texts : List String) : Json := .array (texts.map .string)

end Json

end EndpointDocs
