import EndpointDocs.KeyMap
import EndpointDocs.Text.Blank

/-!
# Annotation trees

An annotation or configuration document is a tree of elements: a tag name, attributes, child
elements in document order and an optional text.

`descendants` walks the tree with a stack of elements still to visit; `preorder` is the same walk
said by recursion, each element in front of its own descendants. An *operation* is an element with
a `url` and a `verb` child; operations may nest.
-/

namespace EndpointDocs

/-- One node of an annotation document. -/
structure Element where
  name : String
  attributes : KeyMap String String := ∅
  children : List Element := []
  text : Option String := none
deriving Inhabited

namespace Element

mutual

def decEq : (a b : Element) → Decidable (a = b)
  | ⟨n, as, cs, t⟩, ⟨m, bs, ds, u⟩ =>
    match decEqAll cs ds with
    | isTrue hc =>
      if h : n = m ∧ as = bs ∧ t = u then isTrue (by obtain ⟨rfl, rfl, rfl⟩ := h; rw [hc])
      else isFalse (by intro he; injection he with h₁ h₂ _ h₃; exact h ⟨h₁, h₂, h₃⟩)
    | isFalse hc => isFalse (by intro he; injection he with _ _ h _; exact hc h)

def decEqAll : (as bs : List Element) → Decidable (as = bs)
  | [], [] => isTrue rfl
  | [], _ :: _ => isFalse (by simp)
  | _ :: _, [] => isFalse (by simp)
  | a :: as, b :: bs =>
    match decEq a b, decEqAll as bs with
    | isTrue h₁, isTrue h₂ => isTrue (by rw [h₁, h₂])
    | isFalse h, _ => isFalse (by intro he; exact h (List.cons.inj he).1)
    | _, isFalse h => isFalse (by intro he; exact h (List.cons.inj he).2)

end

instance : DecidableEq Element := decEq

/-! ### Building -/

def ofText (name text : String) : Element := { name, text := some text }

def withAttribute (e : Element) (key value : String) : Element :=
  { e with attributes := e.attributes.insert key value }

def withChild (e child : Element) : Element := { e with children := e.children ++ [child] }

def withText (e : Element) (text : String) : Element := { e with text := some text }

/-! ### Reading -/

def attribute? (e : Element) (key : String) : Option String := e.attributes.get? key

def trimmedAttribute? (e : Element) (key : String) : Option String :=
  (e.attribute? key).map Text.trim

/-- The element's own text without white space around it; empty if it has none. -/
def ownText (e : Element) : String := (e.text.map Text.trim).getD ""

def nonEmptyText? (e : Element) : Option String := if e.ownText = "" then none else some e.ownText

/-- The children with the given tag, in document order. -/
def childrenNamed (e : Element) (name : String) : List Element :=
  e.children.filter (fun c => c.name = name)

def child? (e : Element) (name : String) : Option Element :=
  e.children.find? (fun c => c.name = name)

def isOperation (e : Element) : Bool := (e.child? "url").isSome && (e.child? "verb").isSome

/-! ### Walking -/

mutual

def nodeCount : Element → Nat
  | ⟨_, _, children, _⟩ => nodeCountAll children + 1

def nodeCountAll : List Element → Nat
  | [] => 0
  | e :: rest => nodeCount e + nodeCountAll rest

end

theorem nodeCount_eq (e : Element) : e.nodeCount = nodeCountAll e.children + 1 := by
  cases e; rfl

theorem nodeCountAll_append (es fs : List Element) :
    nodeCountAll (es ++ fs) = nodeCountAll es + nodeCountAll fs := by
  induction es with
  | nil => simp [nodeCountAll]
  | cons e rest ih => simp [nodeCountAll, ih, Nat.add_assoc]

theorem nodeCountAll_reverse (es : List Element) :
    nodeCountAll es.reverse = nodeCountAll es := by
  induction es with
  | nil => rfl
  | cons e rest ih =>
    rw [List.reverse_cons, nodeCountAll_append, ih, nodeCountAll, nodeCountAll, nodeCountAll,
      Nat.add_zero, Nat.add_comm]

/-- Take the last element off the stack, note it and put its children there, the first one last,
until nothing is left. `found` are the elements that were noted before. -/
def walk (found stack : Array Element) : Array Element :=
  match _h : stack.back? with
  | none => found
  | some e => walk (found.push e) (stack.pop ++ e.children.reverse)
termination_by nodeCountAll stack.toList
decreasing_by
  obtain ⟨below, rfl⟩ := Array.back?_eq_some_iff.1 _h
  simp [nodeCountAll_append, nodeCountAll_reverse, nodeCountAll, nodeCount_eq]

/-- All proper descendants in document order. -/
def descendants (e : Element) : List Element := (walk #[] e.children.reverse.toArray).toList

mutual

/-- The proper descendants by recursion: each child in front of its own descendants. -/
def preorder : Element → List Element
  | ⟨_, _, children, _⟩ => preorderAll children

def preorderAll : List Element → List Element
  | [] => []
  | e :: rest => e :: (preorder e ++ preorderAll rest)

end

/-- The operations of a tree in document order, its root included. -/
def operations (e : Element) : List Element := (e :: e.descendants).filter isOperation

end Element

end EndpointDocs
