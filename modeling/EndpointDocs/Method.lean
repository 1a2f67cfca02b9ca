import EndpointDocs.KeyMap
import EndpointDocs.Text.Blank

/-!
# HTTP methods

The methods that a documented operation may have, in the order in which a path lists them.
-/

namespace EndpointDocs

inductive Method where
  | get | put | post | delete | options | head | patch | trace
deriving DecidableEq, Repr, Inhabited

namespace Method

def all : List Method := [get, put, post, delete, options, head, patch, trace]

/-- The name in capitals, as requests write it. -/
def name : Method → String
  | get => "GET"
  | put => "PUT"
  | post => "POST"
  | delete => "DELETE"
  | options => "OPTIONS"
  | head => "HEAD"
  | patch => "PATCH"
  | trace => "TRACE"

/-- The name in small letters, as a document writes it. -/
def key : Method → String
  | get => "get"
  | put => "put"
  | post => "post"
  | delete => "delete"
  | options => "options"
  | head => "head"
  | patch => "patch"
  | trace => "trace"

/-- The method with the given name in any case, white space around it aside. -/
def parse? (s : String) : Option Method :=
  let upper := String.ofList ((Text.trimChars s.toList).map Char.toUpper)
  all.find? fun m => m.name = upper

def rank : Method → Nat
  | get => 0
  | put => 1
  | post => 2
  | delete => 3
  | options => 4
  | head => 5
  | patch => 6
  | trace => 7

theorem rank_injective {a b : Method} (h : a.rank = b.rank) : a = b := by
  cases a <;> cases b <;> first | rfl | cases h

instance : LT Method := ⟨fun a b => a.rank < b.rank⟩

instance : DecidableLT Method := fun a b => inferInstanceAs (Decidable (a.rank < b.rank))

instance : OrderedKey Method where
  irrefl a := Nat.lt_irrefl a.rank
  trans := Nat.lt_trans
  trichotomy a b := by
    rcases Nat.lt_trichotomy a.rank b.rank with h | h | h
    · exact .inl h
    · exact .inr (.inl (rank_injective h))
    · exact .inr (.inr h)

end Method

end EndpointDocs
