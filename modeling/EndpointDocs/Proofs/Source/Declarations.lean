import EndpointDocs.Shape

/-!
# The first declaration of a name

The items of a file make a forest, as a module holds items of its own. `inSourceOrder` lists them as
they stand in the source, with the contents of a module in the module's place. The search for a name
goes down into each module and then on behind it; it finds the first item of that list which
declares the name (`findItem?_eq_find?`).

Main statement: `Resolver.ofSources_eq_first`, by which a resolver over files answers with the shape
of the first declaration, file after file, and with nothing only if no file declares the name at any
depth.
-/

namespace EndpointDocs

namespace Source

variable {name : String} {item : Item} {items : List Item}

/-- The item is a structure or an enumeration of the name. -/
def Item.Declares (name : String) : Item → Prop
  | .struct n _ _ => n = name
  | .enum n _ => n = name
  | .module _ => False
  | .other => False

instance (name : String) : DecidablePred (Item.Declares name)
  | .struct n _ _ => inferInstanceAs (Decidable (n = name))
  | .enum n _ => inferInstanceAs (Decidable (n = name))
  | .module _ => inferInstanceAs (Decidable False)
  | .other => inferInstanceAs (Decidable False)

@[simp]
theorem Item.declares_struct {n : String} {ps : List String} {fs : Fields} :
    (Item.struct n ps fs).Declares name ↔ n = name := Iff.rfl

@[simp]
theorem Item.declares_enum {n : String} {vs : List EnumVariant} :
    (Item.enum n vs).Declares name ↔ n = name := Iff.rfl

@[simp]
theorem Item.not_declares_other : ¬ Item.other.Declares name := not_false

/-- The item is one of a list, or one of a module in it, at any depth. -/
inductive Occurs : Item → List Item → Prop where
  | here {item : Item} {items : List Item} (h : item ∈ items) : Occurs item items
  | inside {item : Item} {inner items : List Item} (hmodule : .module inner ∈ items)
      (h : Occurs item inner) : Occurs item items

/-- The items without their modules, and with the contents of each module in its place. -/
def inSourceOrder : List Item → List Item
  | [] => []
  | .struct n ps fs :: rest => .struct n ps fs :: inSourceOrder rest
  | .enum n vs :: rest => .enum n vs :: inSourceOrder rest
  | .module inner :: rest => inSourceOrder inner ++ inSourceOrder rest
  | .other :: rest => .other :: inSourceOrder rest

theorem occurs_cons {first : Item} {rest : List Item} :
    Occurs item (first :: rest) ↔
      item = first ∨ (∃ inner, first = .module inner ∧ Occurs item inner) ∨ Occurs item rest := by
  constructor
  · -- an item is at the front, inside the module at the front, or behind it
    intro h
    cases h with
    | here h =>
      rcases List.mem_cons.1 h with rfl | h
      · exact .inl rfl
      · exact .inr (.inr (.here h))
    | inside hmodule h =>
      rcases List.mem_cons.1 hmodule with hfirst | hrest
      · exact .inr (.inl ⟨_, hfirst.symm, h⟩)
      · exact .inr (.inr (.inside hrest h))
  · rintro (rfl | ⟨inner, rfl, h⟩ | h)
    · exact .here List.mem_cons_self
    · exact .inside List.mem_cons_self h
    · cases h with
      | here h => exact .here (List.mem_cons_of_mem _ h)
      | inside hmodule h => exact .inside (List.mem_cons_of_mem _ hmodule) h

/-- Every declaration of a file has its place in the list, and nothing else has. -/
theorem mem_inSourceOrder_iff (hitem : item.Declares name) :
    item ∈ inSourceOrder items ↔ Occurs item items := by
  have hmodule : ∀ inner, item ≠ .module inner := by
    rintro inner rfl
    exact hitem
  fun_induction inSourceOrder items with
  | case1 =>
    refine iff_of_false List.not_mem_nil fun h => ?_
    cases h with
    | here h => cases h
    | inside h _ => cases h
  | case2 n ps fs rest ih => simp [occurs_cons, ih]
  | case3 n vs rest ih => simp [occurs_cons, ih]
  | case4 inner rest ihInner ihRest =>
    simp [occurs_cons, hmodule, ihInner, ihRest]
  | case5 rest ih => simp [occurs_cons, ih]

end Source

namespace Shape

open Source

/-- The search finds the first declaration of the flattened list. -/
theorem findItem?_eq_find? (name : String) (items : List Item) :
    findItem? name items = (inSourceOrder items).find? (Item.Declares name ·) := by
  fun_induction findItem? name items with
  | case1 => rw [inSourceOrder, List.find?_nil]
  | case2 ps fs rest => simp [inSourceOrder]
  | case3 n ps fs rest hne ih => simp [inSourceOrder, hne, ih]
  | case4 vs rest => simp [inSourceOrder]
  | case5 n vs rest hne ih => simp [inSourceOrder, hne, ih]
  | case6 inner rest ihInner ihRest =>
    rw [inSourceOrder, List.find?_append, ihInner, ihRest, Option.orElse_eq_orElse,
      Option.orElse_eq_or]
  | case7 rest ih => simp [inSourceOrder, ih]

/-- Whatever declares a name has a shape. -/
theorem isSome_ofItem?_of_declares {name : String} {item : Item} (h : item.Declares name) :
    (ofItem? item).isSome = true := by
  cases item with
  | struct => rfl
  | enum => rfl
  | module => cases h
  | other => cases h

end Shape

namespace Resolver

open Source

theorem ofSources_eq_find? (files : List (List Item)) (name : String) :
    ofSources files name =
      ((files.flatMap inSourceOrder).find? (Item.Declares name ·)).bind Shape.ofItem? := by
  rw [ofSources, List.find?_flatMap, funext (Shape.findItem?_eq_find? name)]

/-- A name is unknown only if nothing declares it in any file, at whatever depth of modules;
otherwise the answer is the shape of its first declaration in source order. -/
theorem ofSources_eq_first (files : List (List Item)) (name : String) :
    (ofSources files name = none ↔
      ∀ items ∈ files, ∀ item, Occurs item items → ¬ item.Declares name) ∧
    ∀ shape, ofSources files name = some shape ↔
      ∃ before item after, files.flatMap inSourceOrder = before ++ item :: after ∧
        (∀ earlier ∈ before, ¬ earlier.Declares name) ∧ item.Declares name ∧
        Shape.ofItem? item = some shape := by
  rw [ofSources_eq_find?]
  constructor
  · constructor
    · intro h items hitems item hoccurs hdeclares
      have hmem : item ∈ files.flatMap inSourceOrder :=
        List.mem_flatMap.2 ⟨items, hitems, (mem_inSourceOrder_iff hdeclares).2 hoccurs⟩
      cases hfound : (files.flatMap inSourceOrder).find? (Item.Declares name ·) with
      | none => simpa [hdeclares] using List.find?_eq_none.1 hfound item hmem
      | some found =>
        rw [hfound, Option.bind_some] at h
        -- whatever declares the name has a shape, so the first of them gives one
        have hshape := Shape.isSome_ofItem?_of_declares (by simpa using List.find?_some hfound)
        rw [h] at hshape
        cases hshape
    · intro h
      rw [List.find?_eq_none.2, Option.bind_none]
      intro item hmem
      obtain ⟨items, hitems, hitem⟩ := List.mem_flatMap.1 hmem
      rw [decide_eq_true_eq]
      intro hdeclares
      exact h items hitems item ((mem_inSourceOrder_iff hdeclares).1 hitem) hdeclares
  · intro shape
    rw [Option.bind_eq_some_iff]
    simp only [List.find?_eq_some_iff_append, decide_eq_true_eq, Bool.not_eq_true',
      decide_eq_false_iff_not]
    constructor
    · rintro ⟨item, ⟨hdeclares, before, after, hfiles, hbefore⟩, hshape⟩
      exact ⟨before, item, after, hfiles, hbefore, hdeclares, hshape⟩
    · rintro ⟨before, item, after, hfiles, hbefore, hdeclares, hshape⟩
      exact ⟨item, ⟨hdeclares, before, after, hfiles, hbefore⟩, hshape⟩

end Resolver

end EndpointDocs
