import EndpointDocs.Proofs.ReadTypes
import EndpointDocs.Proofs.Registry.Component

/-!
# Declarations that are read from text are well-named

The name of a declared structure and the names in the types of its fields come from identifiers of
the text. So a resolver that answers from texts is well-named
(`Resolver.wellNamed_ofSources`), and the structures that it knows have plain names.
-/

namespace EndpointDocs

namespace Source

/-- The fields of a structure, whatever their form. -/
def Fields.list : Fields → List Field
  | .named fields => fields
  | .unnamed fields => fields
  | .unit => []

/-! ### Well-named items

A structure brings its name and the types of its fields. Enumerations have names of variants only,
and these are values, so nothing is asked of them. -/

/-- The names of a structure and of all types of its fields are plain. -/
inductive Item.WellNamed : Item → Prop
  | struct {name : String} {params : List String} {fields : Fields} (hname : PlainName name)
      (hfields : ∀ f ∈ fields.list, f.type.WellNamed) : WellNamed (.struct name params fields)
  | enum (name : String) (variants : List EnumVariant) : WellNamed (.enum name variants)
  | module {items : List Item} (h : ∀ item ∈ items, item.WellNamed) : WellNamed (.module items)
  | other : WellNamed .other

/-- Every item that the grammar reads is well-named. -/
def Grammar.ReadsItems (g : Grammar) : Prop := Yields (g .item) Item.WellNamed

namespace Declaration

variable {g : Grammar}

/-- A field with a name, which is of no interest here. -/
theorem yields_namedField (hg : g.ReadsWellNamed) :
    Yields (namedField g) fun f => f.type.WellNamed := by
  unfold namedField
  refine .after fun _ => .after fun _ => .after fun isUnderscore => ?_
  cases isUnderscore with
  | true => exact .after fun _ => .after fun _ => .bind (hg true) fun t ht => .pure ht
  | false => exact .after fun _ => .after fun _ => .bind (hg true) fun t ht => .pure ht

/-- A field of a tuple. -/
theorem yields_unnamedField (hg : g.ReadsWellNamed) :
    Yields (unnamedField g) fun f => f.type.WellNamed := by
  unfold unnamedField
  exact .after fun _ => .after fun _ => .bind (hg true) fun t ht => .pure ht

/-- The three forms of fields: in parentheses, in braces, or none. -/
theorem yields_struct (hg : g.ReadsWellNamed) : Yields (struct g) Item.WellNamed := by
  unfold struct
  refine .after fun _ => .bind .identifier fun name hname => ?_
  refine .after fun params => .after fun conditioned => .after fun ts => .ite ?_ (.ite ?_ ?_)
  · refine .bind (yields_unnamedField hg).separatedUntil.group fun fields hfields => ?_
    exact .after fun _ => .after fun _ => .pure (.struct hname hfields)
  · refine .bind (yields_namedField hg).separatedUntil.group fun fields hfields => ?_
    exact .pure (.struct hname hfields)
  · exact .after fun _ => .pure (.struct hname fun f hf => nomatch hf)

/-- An enumeration is well-named by itself. -/
theorem yields_enum : Yields (enum g) Item.WellNamed := by
  unfold enum
  exact .after fun _ => .after fun name => .after fun _ => .after fun _ => .after fun variants =>
    .pure (.enum name variants)

/-- The items of a file or of a module. -/
theorem yields_contents (hg : g.ReadsItems) :
    Yields (contents g) fun items => ∀ item ∈ items, item.WellNamed := by
  unfold contents manyWhile
  refine .after fun _ => .repeated (.after fun ts => .ite ?_ (.pure (by simp)))
  exact .bind hg fun item hitem => .pure (by simpa using hitem)

/-- A module may also be in a file of its own. -/
theorem yields_module (hg : g.ReadsItems) : Yields (module g) Item.WellNamed := by
  have body : Yields (do
      if ← mark? ";" then return .other
      else return .module (← group .braces (contents g)) : Reader Item) Item.WellNamed := by
    refine .after fun _ => .ite (.pure .other) ?_
    exact .bind (yields_contents hg).group fun items hitems => .pure (.module hitems)
  unfold module
  refine .after fun _ => .after fun _ => .after fun _ => .ite ?_ ?_
  · exact .after fun _ => body
  · exact .after fun _ => body

/-- An item of another kind is read and forgotten. -/
theorem yields_other {α : Type} (r : Reader α) :
    Yields (do let _ ← r; return .other : Reader Item) Item.WellNamed :=
  .after fun _ => .pure .other

/-- The cases are those of the reader; all but three of them forget what they read. -/
theorem yields_item (hg : g.ReadsWellNamed) (hitems : g.ReadsItems) :
    Yields (item g) Item.WellNamed := by
  unfold item
  refine .after fun _ => .after fun visible => .after fun ts => ?_
  refine .ite (yields_other _) (.ite (yields_other _) (.ite (yields_other _) ?_))
  refine .ite (yields_other _) (.ite (yields_other _) (.ite ?_ ?_))
  · refine .ite (yields_other _) (.ite (yields_other _) (.ite (yields_other _) ?_))
    exact yields_other _
  refine .ite (yields_module hitems) (.ite (yields_other _) (.ite (yields_struct hg) ?_))
  refine .ite yields_enum (.ite (yields_other _) (.ite (yields_other _) ?_))
  exact .ite (yields_other _) (.ite (yields_other _) (.ite (yields_other _) .failure))

end Declaration

/-- The induction is on how deep modules may be nested. -/
theorem Grammar.readsItems_upTo (n : Nat) : (Grammar.upTo n).ReadsItems := by
  induction n with
  | zero => exact .failure
  | succ n ih => exact Declaration.yields_item (readsWellNamed_upTo n) ih

/-- What a text declares has plain names. -/
theorem wellNamed_of_items? {text : String} {items : List Item} (h : items? text = some items) :
    ∀ item ∈ items, item.WellNamed := by
  unfold items? at h
  obtain ⟨ts, -, hread⟩ := Option.bind_eq_some_iff.1 h
  exact (Declaration.yields_contents (Grammar.readsItems_upTo _)).of_readAll? hread

/-- The same of several texts. -/
theorem wellNamed_of_texts {texts : List String} {files : List (List Item)}
    (h : texts.mapM items? = some files) : ∀ items ∈ files, ∀ item ∈ items, item.WellNamed := by
  induction texts generalizing files with
  | nil =>
    cases h
    exact fun items hitems => nomatch hitems
  | cons text rest ih =>
    rw [List.mapM_cons] at h
    obtain ⟨first, hfirst, h⟩ := Option.bind_eq_some_iff.1 h
    obtain ⟨others, hothers, h⟩ := Option.bind_eq_some_iff.1 h
    cases h
    exact List.forall_mem_cons.2 ⟨wellNamed_of_items? hfirst, ih hothers⟩

end Source

namespace Shape

open Source

/-! ### Shapes of declarations

What is found is one of the items that were read, and the types of its shape are those of its fields
that are kept. -/

/-- The induction is on the items, with the contents of a module at its place. -/
theorem wellNamed_of_findItem? {name : String} {items : List Item} {item : Item}
    (hitems : ∀ item ∈ items, item.WellNamed) (h : findItem? name items = some item) :
    item.WellNamed := by
  fun_induction findItem? name items with
  | case1 => cases h
  | case2 ps fs rest =>
    cases h
    exact hitems _ List.mem_cons_self
  | case3 n ps fs rest hne ih => exact ih (List.forall_mem_cons.1 hitems).2 h
  | case4 vs rest =>
    cases h
    exact hitems _ List.mem_cons_self
  | case5 n vs rest hne ih => exact ih (List.forall_mem_cons.1 hitems).2 h
  | case6 inner rest ihInner ihRest =>
    obtain ⟨hmodule, hrest⟩ := List.forall_mem_cons.1 hitems
    -- the contents come first, and the items behind only if the name is not among them
    cases hfound : findItem? name inner with
    | some found =>
      rw [hfound] at h ihInner
      cases hmodule with
      | module hinner => exact ihInner hinner h
    | none =>
      rw [hfound] at h
      exact ihRest hrest h
  | case7 rest ih => exact ih (List.forall_mem_cons.1 hitems).2 h

/-- A field of a shape has the declared type. -/
theorem ofField?_eq_some {f : Field} {field : FieldShape} (h : ofField? f = some field) :
    field.type = f.type ∧ f.naming.skipped = false := by
  obtain ⟨name, -, h⟩ := Option.bind_eq_some_iff.1 h
  split at h
  · cases h
  · next hkept =>
    cases h
    exact ⟨rfl, Bool.eq_false_iff.2 hkept⟩

/-- The shape of a well-named declaration has plain names. -/
theorem wellNamed_of_ofItem? {item : Item} {shape : Shape} (hitem : item.WellNamed)
    (h : ofItem? item = some shape) : ∀ t ∈ shape.declaredTypes, t.WellNamed := by
  intro t ht
  cases hitem with
  | @struct name params fields hname hfields =>
    cases h
    unfold ofFields at ht
    split at ht
    · exact List.mem_singleton.1 ht ▸ hfields _ (List.mem_singleton_self _)
    · obtain ⟨field, hfield, rfl⟩ := List.mem_map.1 ht
      obtain ⟨f, hf, hof⟩ := List.mem_filterMap.1 hfield
      exact (ofField?_eq_some hof).1 ▸ hfields f hf
    · cases ht
  | enum name variants =>
    cases h
    cases ht
  | module => cases h
  | other => cases h

end Shape

/-- A resolver that answers from well-named items. -/
theorem Resolver.wellNamed_ofSources {files : List (List Source.Item)}
    (h : ∀ items ∈ files, ∀ item ∈ items, item.WellNamed) : (ofSources files).WellNamed := by
  intro name shape hshape
  obtain ⟨item, hfound, hof⟩ := Option.bind_eq_some_iff.1 hshape
  obtain ⟨items, hitems, hitem⟩ := List.exists_of_findSome?_eq_some hfound
  exact Shape.wellNamed_of_ofItem? (Shape.wellNamed_of_findItem? (h items hitems) hitem) hof

end EndpointDocs
