import EndpointDocs.Proofs.Element.Walking
import Mathlib.Data.List.Basic

/-!
# Document order

One element may occur in a tree more than once, so a place in a tree is told by the numbers of the
children that lead to it from the root. Document order is the lexicographic order of places: an
element stands in front of its descendants, and behind its elder siblings with theirs.

Main statement: `listed_inDocumentOrder`, by which the descendants of an element are the elements at
the places below it, each place once and in document order, and the operations those at the places
where there is a `url` and a `verb` child, also inside of other operations.
-/

namespace EndpointDocs.Element

variable {tree e : Element} {place : List Nat}

/-! ## Places -/

/-- The element at a place. -/
def at? (tree : Element) : List Nat → Option Element
  | [] => some tree
  | i :: place => tree.children[i]?.bind fun c => c.at? place

@[simp]
theorem at?_nil : tree.at? [] = some tree := rfl

@[simp]
theorem at?_cons {i : Nat} :
    tree.at? (i :: place) = tree.children[i]?.bind fun c => c.at? place := rfl

mutual

/-- The places of a tree in document order. -/
def places : Element → List (List Nat)
  | ⟨_, _, children, _⟩ => [] :: placesFrom 0 children

/-- The places of siblings, of which the first one has the given number. -/
def placesFrom (first : Nat) : List Element → List (List Nat)
  | [] => []
  | e :: rest => e.places.map (first :: ·) ++ placesFrom (first + 1) rest

end

theorem places_eq (tree : Element) : tree.places = [] :: placesFrom 0 tree.children := by
  cases tree
  rfl

theorem mem_placesFrom {first : Nat} {es : List Element} :
    place ∈ placesFrom first es ↔
      ∃ i below e, place = (first + i) :: below ∧ es[i]? = some e ∧ below ∈ e.places := by
  induction es generalizing first with
  | nil => simp [placesFrom]
  | cons e rest ih =>
    rw [placesFrom, List.mem_append, List.mem_map, ih]
    constructor
    · rintro (⟨below, hbelow, rfl⟩ | ⟨i, below, d, rfl, hd, hbelow⟩)
      · exact ⟨0, below, e, rfl, rfl, hbelow⟩
      · exact ⟨i + 1, below, d, by rw [Nat.add_assoc, Nat.add_comm 1], hd, hbelow⟩
    · rintro ⟨_ | i, below, d, rfl, hd, hbelow⟩
      · exact .inl ⟨below, Option.some.inj hd ▸ hbelow, rfl⟩
      · exact .inr ⟨i, below, d, by rw [Nat.add_assoc, Nat.add_comm 1], hd, hbelow⟩

/-- The induction is on the way to the place. -/
theorem mem_places_iff : place ∈ tree.places ↔ ∃ e, tree.at? place = some e := by
  induction place generalizing tree with
  | nil => simp [places_eq]
  | cons i below ih =>
    rw [places_eq, List.mem_cons, mem_placesFrom, at?_cons]
    simp only [reduceCtorEq, false_or, Nat.zero_add, List.cons.injEq, Option.bind_eq_some_iff]
    constructor
    · rintro ⟨_, _, c, ⟨rfl, rfl⟩, hc, hbelow⟩
      obtain ⟨e, he⟩ := ih.1 hbelow
      exact ⟨e, c, hc, he⟩
    · rintro ⟨e, c, hc, he⟩
      exact ⟨i, below, c, ⟨rfl, rfl⟩, hc, ih.2 ⟨e, he⟩⟩

mutual

theorem pairwise_places : ∀ tree : Element, tree.places.Pairwise (· < ·)
  | ⟨_, _, children, _⟩ => by
    refine List.pairwise_cons.2 ⟨fun place hplace => ?_, pairwise_placesFrom 0 children⟩
    obtain ⟨_, _, _, rfl, -⟩ := mem_placesFrom.1 hplace
    exact List.nil_lt_cons ..

theorem pairwise_placesFrom :
    ∀ (first : Nat) (es : List Element), (placesFrom first es).Pairwise (· < ·)
  | _, [] => .nil
  | first, e :: rest => by
    refine List.pairwise_append.2 ⟨?_, pairwise_placesFrom (first + 1) rest, ?_⟩
    · refine List.pairwise_map.2 ((pairwise_places e).imp fun hlt => ?_)
      exact List.cons_lt_cons_iff.2 (.inr ⟨rfl, hlt⟩)
    -- the places of the siblings behind it start with a greater number
    · intro place hplace later hlater
      obtain ⟨below, -, rfl⟩ := List.mem_map.1 hplace
      obtain ⟨i, _, _, rfl, -⟩ := mem_placesFrom.1 hlater
      exact List.cons_lt_cons_iff.2 (.inl (by omega))

end

mutual

theorem map_at?_places : ∀ tree : Element,
    tree.places.map tree.at? = (tree :: tree.preorder).map some
  | ⟨_, _, _, _⟩ => congrArg (some _ :: ·) (map_at?_placesFrom [] _ rfl)

/-- The siblings are children of one element, behind those that come before. The induction takes one
of them after the other from `es` to `before`. -/
theorem map_at?_placesFrom {tree : Element} :
    ∀ before es : List Element, tree.children = before ++ es →
      (placesFrom before.length es).map tree.at? = (preorderAll es).map some
  | _, [], _ => rfl
  | before, e :: rest, h => by
    have hfirst : tree.at? ∘ (before.length :: ·) = e.at? := by
      funext place
      simp [h]
    have hrest : (placesFrom (before.length + 1) rest).map tree.at? =
        (preorderAll rest).map some := by
      simpa using map_at?_placesFrom (before ++ [e]) rest (by simp [h])
    rw [placesFrom, preorderAll, List.map_append, List.map_map, hfirst, map_at?_places e, hrest,
      ← List.map_append, List.cons_append]

end

/-! ## Lists of elements in document order -/

/-- The list holds the elements at the places: at those that are chosen, at each of them once, and
in document order. -/
structure Lists (tree : Element) (chosen : List Nat → Element → Prop) (places : List (List Nat))
    (es : List Element) : Prop where
  at? : places.map tree.at? = es.map some
  ascending : places.Pairwise (· < ·)
  complete : ∀ place, place ∈ places ↔ ∃ e, tree.at? place = some e ∧ chosen place e

/-- The root stands in front of its descendants. -/
theorem lists_places (tree : Element) :
    Lists tree (fun _ _ => True) tree.places (tree :: tree.preorder) where
  at? := map_at?_places tree
  ascending := pairwise_places tree
  complete place := by simp only [mem_places_iff, and_true]

theorem lists_placesFrom (tree : Element) :
    Lists tree (fun place _ => place ≠ []) (placesFrom 0 tree.children) tree.preorder where
  at? := by
    rw [preorder_eq]
    exact map_at?_placesFrom [] tree.children rfl
  ascending := pairwise_placesFrom 0 tree.children
  complete place := by
    cases place with
    | nil => simp [mem_placesFrom]
    | cons i below =>
      have hplaces : i :: below ∈ tree.places ↔ i :: below ∈ placesFrom 0 tree.children := by
        simp [places_eq]
      rw [← hplaces, mem_places_iff]
      simp

/-- Going through a list for the elements with a property keeps the order. -/
theorem Lists.filter {chosen : List Nat → Element → Prop} {places : List (List Nat)}
    {es : List Element} (h : Lists tree chosen places es) (p : Element → Bool) :
    Lists tree (fun place e => chosen place e ∧ p e) (places.filter fun q => (tree.at? q).any p)
      (es.filter p) where
  at? := by
    have hplaces := List.filter_map (p := Option.any p) (f := tree.at?) (l := places)
    have hes := List.filter_map (p := Option.any p) (f := some) (l := es)
    rw [h.at?] at hplaces
    exact hplaces.symm.trans hes
  ascending := h.ascending.filter _
  complete place := by
    rw [List.mem_filter, h.complete]
    constructor
    · rintro ⟨⟨e, he, hchosen⟩, hp⟩
      rw [he] at hp
      exact ⟨e, he, hchosen, hp⟩
    · rintro ⟨e, he, hchosen, hp⟩
      exact ⟨⟨e, he, hchosen⟩, by rw [he]; exact hp⟩

/-! ## Descendants and operations -/

/-- There is a child of the name. -/
def HasChild (e : Element) (name : String) : Prop := ∃ c ∈ e.children, c.name = name

instance (name : String) : DecidablePred (HasChild · name) :=
  fun e => inferInstanceAs (Decidable (∃ c ∈ e.children, c.name = name))

theorem isOperation_iff : e.isOperation ↔ e.HasChild "url" ∧ e.HasChild "verb" := by
  simp [isOperation, child?, HasChild]

theorem filter_preorderAll (es : List Element) :
    (preorderAll es).filter isOperation = es.flatMap operations := by
  induction es with
  | nil => rfl
  | cons e rest ih =>
    rw [preorderAll, ← List.cons_append, List.filter_append, ih, List.flatMap_cons, operations,
      descendants_eq]

/-- The operations inside of an operation come behind it, in front of those of its siblings. -/
theorem operations_eq_flatMap (tree : Element) :
    tree.operations = [tree].filter isOperation ++ tree.children.flatMap operations := by
  rw [operations, descendants_eq, preorder_eq, ← List.singleton_append, List.filter_append,
    filter_preorderAll]

/-- The walk with a stack lists what recursion lists, and each place once: below the root for the
descendants, wherever there is a `url` and a `verb` child for the operations. -/
theorem listed_inDocumentOrder (tree : Element) :
    tree.descendants = tree.preorder ∧
    (∃ places, Lists tree (fun place _ => place ≠ []) places tree.descendants) ∧
    tree.operations =
      (tree :: tree.preorder).filter (fun e => e.HasChild "url" ∧ e.HasChild "verb") ∧
    tree.operations = [tree].filter isOperation ++ tree.children.flatMap operations ∧
    ∃ places, Lists tree (fun _ e => e.HasChild "url" ∧ e.HasChild "verb") places
      tree.operations := by
  have hoperations : tree.operations = (tree :: tree.preorder).filter isOperation := by
    rw [operations, descendants_eq]
  -- the places of the operations are those of the tree, filtered by what stands there
  refine ⟨descendants_eq tree, ⟨placesFrom 0 tree.children, ?_⟩, ?_, operations_eq_flatMap tree,
    tree.places.filter fun place => (tree.at? place).any isOperation, ?_⟩
  · rw [descendants_eq]
    exact lists_placesFrom tree
  · rw [hoperations]
    refine List.filter_congr fun e _ => ?_
    rw [Bool.eq_iff_iff, decide_eq_true_iff, isOperation_iff]
  · rw [hoperations]
    simpa only [isOperation_iff, true_and] using (lists_places tree).filter isOperation

/-- An operation with another one inside it. -/
def nestedUnit : Element :=
  { name := "outer"
    children := [ofText "url" "/a",
      { name := "inner", children := [ofText "verb" "put", ofText "url" "/a/b"] },
      ofText "verb" "get"] }

example : nestedUnit.operations.map name = ["outer", "inner"] := by decide +kernel

end EndpointDocs.Element
