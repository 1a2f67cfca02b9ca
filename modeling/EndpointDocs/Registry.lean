import EndpointDocs.Schema
import EndpointDocs.Shape
import EndpointDocs.Variant

/-!
# The registry of components

A named type becomes a component of the documents that use it. The registry asks a resolver for the
shape of a type when the type is first met, keeps the component (or the failure) under the key of
the type, and answers with a reference. Each variant has its own copies of the components that it
uses, so that an example set for one variant shows in no other.

A recursive type refers to itself while it is still being built; such a key is *in progress* and
answered by a reference at once. A type whose fields mention ever larger types is never finished,
so the depth to which types are followed is given, and a registry that runs out of it has no answer.
-/

namespace EndpointDocs

inductive ResolutionCause where
  | unknownType (type : TypeExpr)
  | notATypeExpression (source : String)
deriving DecidableEq, Repr

structure ResolutionError where
  refKey : String
  cause : ResolutionCause
deriving DecidableEq, Repr

namespace ResolutionError

def reason (e : ResolutionError) : String :=
  match e.cause with
  | .unknownType t => "type " ++ t.display ++ " not found"
  | .notATypeExpression source =>
    "'" ++ source ++ "' is not a type expression: no type can be read from it"

def message (e : ResolutionError) : String :=
  "cannot resolve type '" ++ e.refKey ++ "': " ++ e.reason

end ResolutionError

/-! ### What a type expression is made of -/

/-- What may stand around a named type. -/
inductive Wrapper where
  | list
  | map
deriving DecidableEq, Repr

/-- What is left of a type expression without its wrappers. -/
inductive Core where
  /-- A type with a schema of its own. -/
  | fixed (schema : Schema)
  /-- A type that becomes a component. -/
  | named (type : TypeExpr)

def Primitive.schema : Primitive → Schema
  | .string | .char => .typed "string"
  | .i8 | .i16 | .i32 | .u8 | .u16 | .u32 => .typed "integer" (some "int32")
  | .i64 | .i128 | .u64 | .u128 => .typed "integer" (some "int64")
  | .f32 => .typed "number" (some "float")
  | .f64 => .typed "number" (some "double")
  | .bool => .typed "boolean"
  | .uuid => .typed "string" (some "uuid")
  | .dateTime => .typed "string" (some "date-time")
  | .date => .typed "string" (some "date")
  | .any => .typed "object"

namespace TypeExpr

/-- Types that are written as what they hold. -/
def transparentNames : List String := ["Option", "Box", "Arc", "Rc", "Cow", "Json"]

def listNames : List String := ["Vec", "VecDeque", "LinkedList", "HashSet", "BTreeSet", "IndexSet"]

def mapNames : List String := ["HashMap", "BTreeMap", "IndexMap"]

/-- The wrappers of a type expression, outermost first, and what they are around. -/
def peel : TypeExpr → List Wrapper × Core
  | ⟨name, args⟩ =>
    match Primitive.parse? name with
    | some p => ([], .fixed p.schema)
    | none =>
      match args with
      | [] => ([], .named ⟨name, args⟩)
      | inner :: rest =>
        -- what follows the first argument, such as a hasher, does not count
        if name ∈ transparentNames then peel inner
        else if name ∈ listNames then
          let (ws, core) := peel inner
          (.list :: ws, core)
        else if name ∈ mapNames then
          match rest with
          | value :: _ =>
            let (ws, core) := peel value
            (.map :: ws, core)
          | [] => ([.map], .fixed .object)
        else ([], .named ⟨name, args⟩)

end TypeExpr

def wrap (ws : List Wrapper) (s : Schema) : Schema :=
  ws.foldr (fun w s => match w with | .list => .array s | .map => .map s) s

/-! ### The registry -/

abbrev Keys := KeyMap String Unit

/-- The schema of a named type and the components that it refers to. -/
structure Component where
  fragment : Schema
  dependencies : Keys
deriving Inhabited

structure Registry where
  /-- What is known of the types met so far. -/
  memo : KeyMap String (Except ResolutionError Component) := ∅
  /-- The keys whose components are being built. -/
  inProgress : List String := []
  /-- The components that each variant uses. -/
  variants : KeyMap Variant (KeyMap String Schema) := ∅
  /-- The types that the resolver was asked for, with their keys, in order. -/
  lookups : List (String × String) := []
deriving Inhabited

/-- Works on a registry, or runs out of depth. -/
abbrev Resolving (α : Type) := StateT Registry Option α

namespace Registry

abbrev Register := TypeExpr → Resolving (Except ResolutionError Unit)

/-- The schema to use for a type, and the components it refers to besides the given ones. -/
def inlineSchema (register : Register) (t : TypeExpr) (dependencies : Keys) :
    Resolving (Except ResolutionError (Schema × Keys)) := do
  match t.peel with
  | (ws, .fixed s) => return .ok (wrap ws s, dependencies)
  | (ws, .named core) =>
    match ← register core with
    | .ok () =>
      return .ok (wrap ws (.component core.refKey), dependencies.insert core.refKey ())
    | .error e => return .error e

/-- Like `inlineSchema`, with a free-form object for a type that cannot be resolved. -/
def nestedSchema (register : Register) (t : TypeExpr) (dependencies : Keys) :
    Resolving (Schema × Keys) := do
  match ← inlineSchema register t dependencies with
  | .ok found => return found
  | .error _ => return (.object, dependencies)

def addFields (register : Register) (generics : List String) (args : List TypeExpr) :
    List FieldShape → Component → Resolving Component
  | [], c => return c
  | f :: rest, c => do
    let (property, dependencies) ←
      nestedSchema register (f.type.substitute generics args) c.dependencies
    let fragment := { c.fragment with
      required := if f.isRequired then c.fragment.required ++ [f.name] else c.fragment.required
      properties := Entries.insert f.name { property with description := f.description }
        c.fragment.properties }
    addFields register generics args rest ⟨fragment, dependencies⟩

/-- The component of a type with the given shape. -/
def componentOf (register : Register) (t : TypeExpr) : Shape → Resolving Component
  | .struct generics fields => addFields register generics t.args fields ⟨.object, ∅⟩
  | .newtype inner => do
    let (fragment, dependencies) ← nestedSchema register inner ∅
    return ⟨fragment, dependencies⟩
  | .enum names => return ⟨{ Schema.typed "string" with values := some names }, ∅⟩

/-- Note that the component of `key` is being built, and that the resolver is asked for `name`. -/
def start (r : Registry) (key name : String) : Registry :=
  { r with inProgress := key :: r.inProgress, lookups := r.lookups ++ [(key, name)] }

/-- Store what became of `key`. -/
def finish (r : Registry) (key : String) (result : Except ResolutionError Component) : Registry :=
  { r with inProgress := r.inProgress.erase key, memo := r.memo.insert key result }

/-- Register the component of a named type unless it is known or in progress. Types are followed
`depth` components deep. -/
def register (resolver : Resolver) (depth : Nat) : Register := fun t => do
  let key := t.refKey
  match (← get).memo.get? key with
  | some (.ok _) => return .ok ()
  | some (.error e) => return .error e
  | none =>
    -- the type refers to itself: its component is there once the call around this one has ended
    if key ∈ (← get).inProgress then return .ok ()
    else
      match depth with
      | 0 => failure
      | depth + 1 =>
        modify (·.start key t.name)
        match resolver t.name with
        | none =>
          let e : ResolutionError := ⟨key, .unknownType t⟩
          modify (·.finish key (.error e))
          return .error e
        | some shape =>
          let component ← componentOf (register resolver depth) t shape
          modify (·.finish key (.ok component))
          return .ok ()

/-! ### The components of a variant -/

/-- The components that a memo knows and a variant does not have yet. -/
def missing (memo : KeyMap String (Except ResolutionError Component))
    (schemas : KeyMap String Schema) : Nat :=
  (memo.entries.filter fun p => !schemas.contains p.1).length

/-- Storing a component of the memo leaves fewer of them missing. -/
theorem missing_insert_lt {memo : KeyMap String (Except ResolutionError Component)}
    {schemas : KeyMap String Schema} {key : String} {result : Except ResolutionError Component}
    {s : Schema} (hm : memo.get? key = some result) (hs : schemas.contains key = false) :
    missing memo (schemas.insert key s) < missing memo schemas := by
  have keep : ∀ k,
      (schemas.insert key s).contains k = (decide (k = key) || schemas.contains k) := by
    intro k
    simp only [KeyMap.contains, KeyMap.get?_insert]
    by_cases h : k = key <;> simp [h]
  -- nothing more is missing, and less by one where the key is met; the induction needs both
  have count : ∀ l : List (String × Except ResolutionError Component),
      (l.filter fun p => !(schemas.insert key s).contains p.1).length ≤
        (l.filter fun p => !schemas.contains p.1).length ∧
      (Entries.find? key l = some result →
        (l.filter fun p => !(schemas.insert key s).contains p.1).length <
          (l.filter fun p => !schemas.contains p.1).length) := by
    intro l
    induction l with
    | nil => simp [Entries.find?]
    | cons p rest ih =>
      obtain ⟨k, v⟩ := p
      by_cases hk : k = key
      · subst hk
        -- the key itself: no entry behind it has to be counted again
        have h₁ := ih.1
        simp only [keep] at h₁
        simp only [List.filter_cons, keep, hs, decide_true, Bool.true_or, Bool.not_true,
          Bool.not_false, reduceIte, List.length_cons, Bool.false_eq_true, Entries.find?]
        omega
      · have hfind : Entries.find? key ((k, v) :: rest) = Entries.find? key rest := by
          simp [Entries.find?, hk]
        have h₁ := ih.1
        have h₂ := ih.2
        rw [hfind]
        simp only [keep] at h₁ h₂
        simp only [List.filter_cons, keep, hk, decide_false, Bool.false_or]
        split
        · simp only [List.length_cons]
          exact ⟨by omega, fun h => by have := h₂ h; omega⟩
        · exact ⟨h₁, h₂⟩
  exact (count memo.entries).2 hm

/-- Copy the components of the pending keys, and all that they refer to, unless they are there. -/
def copyComponents (memo : KeyMap String (Except ResolutionError Component))
    (pending : List String) (schemas : KeyMap String Schema) : KeyMap String Schema :=
  match pending with
  | [] => schemas
  | key :: rest =>
    if _hs : schemas.contains key then copyComponents memo rest schemas
    else
      match _hm : memo.get? key with
      | some (.ok c) =>
        copyComponents memo (c.dependencies.keys.reverse ++ rest) (schemas.insert key c.fragment)
      -- nothing tells that a key was left out
      | _ => copyComponents memo rest schemas
termination_by (missing memo schemas, pending.length)
decreasing_by
  · exact Prod.Lex.right _ (by simp)
  · exact Prod.Lex.left _ _ (missing_insert_lt _hm (by simpa using _hs))
  · exact Prod.Lex.right _ (by simp)

def componentsOf (r : Registry) (variant : Variant) : KeyMap String Schema :=
  (r.variants.get? variant).getD ∅

/-- Give a variant its own copy of a component and of everything that it refers to. -/
def copyIntoVariant (r : Registry) (variant : Variant) (key : String) : Registry :=
  { r with variants :=
      r.variants.insert variant (copyComponents r.memo [key] (r.componentsOf variant)) }

/-! ### What a registry is asked for -/

/-- The schema to use for a type in a variant; its components are copied into the variant. -/
def resolve (resolver : Resolver) (depth : Nat) (t : TypeExpr) (variant : Variant) :
    Resolving (Except ResolutionError Schema) := do
  match ← inlineSchema (register resolver depth) t ∅ with
  | .error e => return .error e
  | .ok (s, dependencies) =>
    modify fun r => dependencies.keys.foldl (fun r key => r.copyIntoVariant variant key) r
    return .ok s

def lookup? (r : Registry) (key : String) (variant : Variant) : Option Schema :=
  (r.variants.get? variant).bind (·.get? key)

/-- Set the example of a component for one variant; whether there is such a component. -/
def injectSample (r : Registry) (key : String) (variant : Variant) (sample : Json) :
    Bool × Registry :=
  let r := r.copyIntoVariant variant key
  let schemas := r.componentsOf variant
  match schemas.get? key with
  | some s =>
    (true, { r with variants :=
        r.variants.insert variant (schemas.insert key { s with sample := some sample }) })
  | none => (false, r)

/-- Add the components of a variant to a map, keeping what it has. -/
def flush (r : Registry) (variant : Variant) (target : KeyMap String Schema) :
    KeyMap String Schema :=
  (r.componentsOf variant).entries.foldl (fun m p => m.insertNew p.1 p.2) target

/-- The components of all variants as they were at some time. What is known of types is no part of
it: it reaches no document unless a variant uses it. -/
abbrev Snapshot := KeyMap Variant (KeyMap String Schema)

def snapshot (r : Registry) : Snapshot := r.variants

def restore (r : Registry) (saved : Snapshot) : Registry := { r with variants := saved }

end Registry

end EndpointDocs
