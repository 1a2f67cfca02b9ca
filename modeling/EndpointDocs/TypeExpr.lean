/-!
# Type expressions

A type expression such as `Page<Vec<User>>` is a name with arguments. `display` writes it the way a
reader of documentation expects it, `refKey` is the key of the component that it becomes, and
`substitute` puts arguments in the place of the parameters of a generic declaration.

In a key arguments open with a point, are separated by a hyphen and close with a point; the closing
points at the end are dropped. No identifier holds either character.
-/

namespace EndpointDocs

/-- The name of a type, without the path in front of it, and its arguments. -/
structure TypeExpr where
  name : String
  args : List TypeExpr := []
deriving Repr, Inhabited

namespace TypeExpr

mutual

def decEq : (a b : TypeExpr) → Decidable (a = b)
  | ⟨n, as⟩, ⟨m, bs⟩ =>
    match decEqAll as bs with
    | isTrue ha =>
      if h : n = m then isTrue (by rw [h, ha])
      else isFalse (by intro he; injection he with h₁ _; exact h h₁)
    | isFalse ha => isFalse (by intro he; injection he with _ h; exact ha h)

def decEqAll : (as bs : List TypeExpr) → Decidable (as = bs)
  | [], [] => isTrue rfl
  | [], _ :: _ => isFalse (by simp)
  | _ :: _, [] => isFalse (by simp)
  | a :: as, b :: bs =>
    match decEq a b, decEqAll as bs with
    | isTrue h₁, isTrue h₂ => isTrue (by rw [h₁, h₂])
    | isFalse h, _ => isFalse (by intro he; exact h (List.cons.inj he).1)
    | _, isFalse h => isFalse (by intro he; exact h (List.cons.inj he).2)

end

instance : DecidableEq TypeExpr := decEq

/-- The type of free-form values, which also stands for what is no named type. -/
def anything : TypeExpr := ⟨"Value", []⟩

def listOf (item : TypeExpr) : TypeExpr := ⟨"Vec", [item]⟩

/-! ### Printing -/

mutual

/-- The characters of a type expression as it is written. -/
def displayChars : TypeExpr → List Char
  | ⟨name, []⟩ => name.toList
  | ⟨name, a :: as⟩ => name.toList ++ '<' :: (displayChars a ++ displayRest as)

/-- The arguments behind the first one, with the closing bracket. -/
def displayRest : List TypeExpr → List Char
  | [] => ['>']
  | a :: as => ',' :: ' ' :: (displayChars a ++ displayRest as)

end

def display (t : TypeExpr) : String := String.ofList t.displayChars

/-! ### Keys -/

mutual

/-- The key with all of its closing points. -/
def keyChars : TypeExpr → List Char
  | ⟨name, []⟩ => name.toList
  | ⟨name, a :: as⟩ => name.toList ++ '.' :: (keyChars a ++ keyRest as)

/-- The arguments behind the first one, with the closing point. -/
def keyRest : List TypeExpr → List Char
  | [] => ['.']
  | a :: as => '-' :: (keyChars a ++ keyRest as)

end

/-- The key without the points at its end. -/
def refKey (t : TypeExpr) : String :=
  String.ofList (t.keyChars.reverse.dropWhile (· == '.')).reverse

/-! ### Substitution -/

/-- The argument for a parameter; a parameter without one stands for free-form values, and a name
that is no parameter for itself. -/
def argumentFor (name : String) : List String → List TypeExpr → TypeExpr
  | [], _ => ⟨name, []⟩
  | p :: ps, args => if p = name then args.headD anything else argumentFor name ps args.tail

mutual

/-- Put arguments in the place of parameters. A name with arguments of its own is no parameter. -/
def substitute (params : List String) (args : List TypeExpr) : TypeExpr → TypeExpr
  | ⟨name, []⟩ => argumentFor name params args
  | ⟨name, a :: as⟩ => ⟨name, substitute params args a :: substituteAll params args as⟩

def substituteAll (params : List String) (args : List TypeExpr) : List TypeExpr → List TypeExpr
  | [] => []
  | a :: as => substitute params args a :: substituteAll params args as

end

end TypeExpr

/-! ### Primitive types -/

/-- The types that have a fixed schema of their own. -/
inductive Primitive where
  | string | i8 | i16 | i32 | i64 | i128 | u8 | u16 | u32 | u64 | u128 | f32 | f64 | bool | char
  | uuid | dateTime | date | any
deriving DecidableEq, Repr

namespace Primitive

def parse? (name : String) : Option Primitive :=
  if name = "String" ∨ name = "str" then some string
  else if name = "i8" then some i8
  else if name = "i16" then some i16
  else if name = "i32" ∨ name = "isize" then some i32
  else if name = "i64" then some i64
  else if name = "i128" then some i128
  else if name = "u8" then some u8
  else if name = "u16" then some u16
  else if name = "u32" ∨ name = "usize" then some u32
  else if name = "u64" then some u64
  else if name = "u128" then some u128
  else if name = "f32" then some f32
  else if name = "f64" then some f64
  else if name = "bool" then some bool
  else if name = "char" then some char
  else if name = "Uuid" then some uuid
  else if name = "DateTime" ∨ name = "NaiveDateTime" ∨ name = "OffsetDateTime" then some dateTime
  else if name = "NaiveDate" ∨ name = "Date" then some date
  else if name = "Value" then some any
  else none

end Primitive

end EndpointDocs
