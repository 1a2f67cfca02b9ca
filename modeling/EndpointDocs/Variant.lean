import EndpointDocs.Element

/-!
# Document variants

An operation is published into the default document and into any number of named variants. The
configuration declares which tags are *categorizers*; each such tag inside an operation puts the
operation into the variant of the tag and its text.
-/

namespace EndpointDocs

/-- The key of one document. -/
structure Variant where
  categorizer : String
  title : String
deriving DecidableEq, Repr, Inhabited

namespace Variant

/-- The variant that every operation belongs to. -/
def default : Variant := ⟨"", ""⟩

def isDefault (v : Variant) : Bool := v.categorizer == "" && v.title == ""

def display (v : Variant) : String :=
  if v.isDefault then "default" else v.categorizer ++ ":" ++ v.title

/-- A `variant` element of a configuration that names this variant. -/
def isAddressedBy (v : Variant) (block : Element) : Bool :=
  block.name == "variant" && block.trimmedAttribute? "categorizer" == some v.categorizer &&
    block.trimmedAttribute? "title" == some v.title

/-- Variants are ordered by categorizer, then by title. -/
instance : LT Variant where
  lt a b := a.categorizer < b.categorizer ∨ (a.categorizer = b.categorizer ∧ a.title < b.title)

instance : DecidableLT Variant := fun a b =>
  inferInstanceAs (Decidable
    (a.categorizer < b.categorizer ∨ (a.categorizer = b.categorizer ∧ a.title < b.title)))

instance : OrderedKey Variant where
  irrefl a h := by
    rcases h with h | ⟨_, h⟩
    · exact OrderedKey.irrefl _ h
    · exact OrderedKey.irrefl _ h
  trans := by
    intro a b c h₁ h₂
    rcases h₁ with h₁ | ⟨e₁, h₁⟩ <;> rcases h₂ with h₂ | ⟨e₂, h₂⟩
    · exact .inl (OrderedKey.trans h₁ h₂)
    · exact .inl (e₂ ▸ h₁)
    · exact .inl (e₁ ▸ h₂)
    · exact .inr ⟨e₁.trans e₂, OrderedKey.trans h₁ h₂⟩
  trichotomy := by
    rintro ⟨c, t⟩ ⟨d, u⟩
    rcases OrderedKey.trichotomy c d with h | rfl | h
    · exact .inl (.inl h)
    · rcases OrderedKey.trichotomy t u with h | rfl | h
      · exact .inl (.inr ⟨rfl, h⟩)
      · exact .inr (.inl rfl)
      · exact .inr (.inr (.inr ⟨rfl, h⟩))
    · exact .inr (.inr (.inl h))

end Variant

/-- The items in order of first occurrence, each once. -/
def distinct {α : Type} [DecidableEq α] (items : List α) : List α :=
  items.foldl (fun known a => if a ∈ known then known else known ++ [a]) []

/-- The categorizer tags that the `variant` elements of a configuration name. -/
def categorizers (config : Option Element) : List String :=
  let declared := ((config.map (·.childrenNamed "variant")).getD []).flatMap
    (·.childrenNamed "name")
  distinct (declared.filterMap Element.nonEmptyText?)

/-- The variants that a unit is built for: the default one, then one for each categorizer tag in
it, by categorizer and within a categorizer in document order. -/
def variantsForUnit (unit : Element) (categorizers : List String) : List Variant :=
  Variant.default :: categorizers.flatMap fun categorizer =>
    (unit.descendants.filter fun e => e.name = categorizer).map fun e => ⟨categorizer, e.ownText⟩

end EndpointDocs
