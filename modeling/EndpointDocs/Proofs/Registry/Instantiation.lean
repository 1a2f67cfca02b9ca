import EndpointDocs.Proofs.ReadItems
import EndpointDocs.Proofs.TypeHeight

/-!
# Components of instances

An instance of a generic structure can also be written by hand: a structure without parameters whose
fields have the types that the parameters are replaced in (`Source.Fields.instantiate`). Both have
the same component, as long as replacing changes neither whether a named field is optional nor the
type of a single unnamed field (`Component.of_instance`). Of named fields only the list of required
ones can differ (`Component.of_named_instance`).
-/

namespace EndpointDocs

/-! ## Replacing parameters

The registry substitutes by position: it goes through the parameters with the arguments beside them.
Here the two lists are one, of pairs, and a parameter is looked up in it. Both mean the same if
there are as many arguments as parameters; one that is missing leaves its parameter in place. -/

namespace TypeExpr

mutual

/-- The type with what is given for names in their place. -/
def instantiate (given : List (String × TypeExpr)) : TypeExpr → TypeExpr
  | ⟨name, []⟩ => (given.lookup name).getD ⟨name, []⟩
  | ⟨name, a :: as⟩ => ⟨name, instantiate given a :: instantiateAll given as⟩

def instantiateAll (given : List (String × TypeExpr)) : List TypeExpr → List TypeExpr
  | [] => []
  | a :: as => instantiate given a :: instantiateAll given as

end

/-- The first parameter of the name decides in both. -/
theorem argumentFor_eq_lookup {name : String} :
    ∀ {params : List String} {args : List TypeExpr}, args.length = params.length →
      argumentFor name params args = ((params.zip args).lookup name).getD ⟨name, []⟩
  | [], [], _ => rfl
  | p :: ps, a :: as, h => by
    rw [argumentFor, List.zip_cons_cons, List.lookup_cons]
    by_cases hp : p = name
    · subst hp
      simp
    · have hname : (name == p) = false := beq_eq_false_iff_ne.2 (Ne.symm hp)
      rw [if_neg hp, hname]
      exact argumentFor_eq_lookup (Nat.succ.inj h)

variable {params : List String} {args : List TypeExpr}

mutual

/-- If every parameter has its argument, substituting is replacing. -/
theorem substitute_eq_instantiate (h : args.length = params.length) :
    ∀ t : TypeExpr, t.substitute params args = t.instantiate (params.zip args)
  | ⟨_, []⟩ => argumentFor_eq_lookup h
  | ⟨name, a :: as⟩ => by
    rw [substitute, instantiate, substitute_eq_instantiate h a,
      substituteAll_eq_instantiateAll h as]

theorem substituteAll_eq_instantiateAll (h : args.length = params.length) :
    ∀ ts : List TypeExpr,
      substituteAll params args ts = instantiateAll (params.zip args) ts
  | [] => rfl
  | a :: as => by
    rw [substituteAll, instantiateAll, substitute_eq_instantiate h a,
      substituteAll_eq_instantiateAll h as]

end

/-- Nothing is replaced without parameters. So a structure by hand has the types that it declares.
-/
theorem substitute_nil (t : TypeExpr) : t.substitute [] [] = t := by
  induction t using induction_args with
  | _ t ih =>
    obtain ⟨name, ts⟩ := t
    rw [substitute_eq]
    split
    · next hargs =>
      cases hargs
      rfl
    · have hsame : ts.map (substitute [] []) = ts := (List.map_congr_left ih).trans (List.map_id ts)
      rw [hsame]

end TypeExpr

/-! ## Finding structures

A resolver looks into one file after the other. That it might as well look into all of them as one
list is what lets an example name the items only. -/

namespace Shape

open Source

/-- The cases are those of the search; a module is searched before what stands behind it. -/
theorem findItem?_append (name : String) (items more : List Item) :
    findItem? name (items ++ more) = (findItem? name items <|> findItem? name more) := by
  fun_induction findItem? name items with
  | case1 => rfl
  | case2 ps fs rest => simp [findItem?]
  | case3 n ps fs rest hne ih => simp [findItem?, hne, ih]
  | case4 vs rest => simp [findItem?]
  | case5 n vs rest hne ih => simp [findItem?, hne, ih]
  | case6 inner rest ihInner ihRest =>
    rw [List.cons_append, findItem?, ihRest]
    cases findItem? name inner <;> rfl
  | case7 rest ih => simp [findItem?, ih]

/-- Files are looked through as if they were one. -/
theorem findSome?_findItem? (name : String) (files : List (List Item)) :
    files.findSome? (findItem? name) = findItem? name files.flatten := by
  induction files with
  | nil => rw [List.flatten_nil, findItem?, List.findSome?_nil]
  | cons items rest ih =>
    rw [List.flatten_cons, findItem?_append, List.findSome?_cons, ih]
    cases findItem? name items <;> rfl

end Shape

namespace Source

/-! ## Structures by hand

The structure by hand is the generic one with its arguments filled in, field by field. Names and
attributes of the fields are those of the generic structure. -/

variable (given : List (String × TypeExpr))

/-- The same field with another type. -/
def Field.instantiate (f : Field) : Field := { f with type := f.type.instantiate given }

/-- The same fields with other types. -/
def Fields.instantiate : Fields → Fields
  | .named fields => .named (fields.map (Field.instantiate given))
  | .unnamed fields => .unnamed (fields.map (Field.instantiate given))
  | .unit => .unit

/-- Replacing changes neither whether a named field is optional nor a single unnamed field. -/
def Fields.KeepsForm : Fields → Prop
  | .named fields => ∀ f ∈ fields, f.naming.skipped = false →
      ((f.type.instantiate given).name = "Option" ↔ f.type.name = "Option")
  | .unnamed [f] => f.type.instantiate given = f.type
  | _ => True

/-- The parameters and the fields of the structure that is found under a name. -/
def struct? (files : List (List Item)) (name : String) : Option (List String × Fields) :=
  match files.findSome? (Shape.findItem? name) with
  | some (.struct _ params fields) => some (params, fields)
  | _ => none

variable {given} {files : List (List Item)} {name : String} {params : List String} {fields : Fields}

/-- What is found under the name is a structure. -/
theorem exists_item_of_struct? (h : struct? files name = some (params, fields)) :
    ∃ n, files.findSome? (Shape.findItem? name) = some (.struct n params fields) := by
  unfold struct? at h
  split at h
  · next n _ _ hfound =>
    cases h
    exact ⟨n, hfound⟩
  · cases h

/-- The resolver answers with the shape of that structure. -/
theorem ofSources_of_struct? (h : struct? files name = some (params, fields)) :
    Resolver.ofSources files name = some (Shape.ofFields params fields) := by
  obtain ⟨n, hfound⟩ := exists_item_of_struct? h
  rw [Resolver.ofSources, hfound]
  rfl

/-- An item is found under its own name. -/
theorem name_of_findItem? {n : String} {items : List Item}
    (h : Shape.findItem? name items = some (.struct n params fields)) : n = name := by
  fun_induction Shape.findItem? name items with
  | case1 => cases h
  | case2 ps fs rest => cases h; rfl
  | case3 n' ps fs rest hne ih => exact ih h
  | case4 vs rest => cases h
  | case5 n' vs rest hne ih => exact ih h
  | case6 inner rest ihInner ihRest =>
    cases hfound : Shape.findItem? name inner with
    | some found =>
      rw [hfound] at h ihInner
      exact ihInner h
    | none =>
      rw [hfound] at h
      exact ihRest h
  | case7 rest ih => exact ih h

/-- The name was read with the item, so it is plain. -/
theorem plainName_of_struct? (hfiles : ∀ items ∈ files, ∀ item ∈ items, item.WellNamed)
    (h : struct? files name = some (params, fields)) : PlainName name := by
  obtain ⟨n, hfound⟩ := exists_item_of_struct? h
  obtain ⟨items, hitems, hitem⟩ := List.exists_of_findSome?_eq_some hfound
  obtain rfl := name_of_findItem? hitem
  cases Shape.wellNamed_of_findItem? (hfiles items hitems) hitem with
  | struct hname hfields => exact hname

end Source

/-! ## Components of instances

The two components are made field by field, and the induction compares them with their lists of
required properties left out: whether a property is required is asked of the declared type, which is
the only thing that replacing can change. -/

namespace Component

/-- The component without its list of required properties. -/
def withoutRequired (c : Component) : Component :=
  { c with fragment := { c.fragment with required := [] } }

/-- The list is a field of its own, so nothing else is left out. -/
theorem eq_of_withoutRequired {c d : Component} (h : c.withoutRequired = d.withoutRequired)
    (hrequired : c.fragment.required = d.fragment.required) : c = d := by
  obtain ⟨⟨_, _, _, _, _, _, _, _, _, _, _⟩, _⟩ := c
  obtain ⟨⟨_, _, _, _, _, _, _, _, _, _, _⟩, _⟩ := d
  cases hrequired
  injection h with hfragment hdependencies
  injection hfragment
  subst_vars
  rfl

end Component

section Fields

open Source

variable {given : List (String × TypeExpr)} {known : TypeExpr → Bool} {params : List String}
variable {args : List TypeExpr} {c d : Component}

/-- The field of a shape with another type. -/
def FieldShape.instantiate (given : List (String × TypeExpr)) (f : FieldShape) : FieldShape :=
  { f with type := f.type.instantiate given }

/-- What stays of a field is told by its name and attributes. -/
theorem Shape.ofField?_instantiate (given : List (String × TypeExpr)) (f : Field) :
    ofField? (f.instantiate given) = (ofField? f).map (FieldShape.instantiate given) := by
  unfold ofField? Field.instantiate
  cases f.name with
  | none => rfl
  | some name =>
    dsimp only [Option.bind_some]
    split <;> rfl

/-- Skipped fields are skipped in both. -/
theorem Shape.filterMap_ofField?_instantiate (given : List (String × TypeExpr))
    (fields : List Field) : (fields.map (Field.instantiate given)).filterMap ofField? =
      (fields.filterMap ofField?).map (FieldShape.instantiate given) := by
  rw [List.filterMap_map, List.map_filterMap]
  exact List.filterMap_congr fun f _ => ofField?_instantiate given f

/-- The properties that are required so far do not matter for the others. -/
theorem Component.withoutRequired_addField (c : Component) (f : FieldShape) :
    (addField known params args c f).withoutRequired =
      (addField known params args c.withoutRequired f).withoutRequired := rfl

/-- A field of the instance by hand adds the same property. -/
theorem Component.addField_instantiate (hlength : args.length = params.length) (c : Component)
    (f : FieldShape) : (addField known params args c f).withoutRequired =
      (addField known [] [] c (f.instantiate (params.zip args))).withoutRequired := by
  have htype : (f.instantiate (params.zip args)).type.substitute [] [] =
      f.type.substitute params args := by
    rw [TypeExpr.substitute_nil, TypeExpr.substitute_eq_instantiate hlength]
    rfl
  unfold addField withoutRequired
  rw [htype]
  rfl

/-- The induction is on the fields. -/
theorem Component.withoutRequired_foldl_addField (hlength : args.length = params.length)
    (fields : List FieldShape) (h : c.withoutRequired = d.withoutRequired) :
    (fields.foldl (addField known params args) c).withoutRequired =
      ((fields.map (FieldShape.instantiate (params.zip args))).foldl
        (addField known [] []) d).withoutRequired := by
  induction fields generalizing c d with
  | nil => exact h
  | cons f rest ih =>
    refine ih ?_
    rw [addField_instantiate hlength, withoutRequired_addField, h, ← withoutRequired_addField]

/-- The required properties are the fields that are not optional. -/
theorem Component.required_foldl_addField (fields : List FieldShape) (c : Component) :
    (fields.foldl (addField known params args) c).fragment.required =
      c.fragment.required ++ (fields.filter FieldShape.isRequired).map FieldShape.name := by
  induction fields generalizing c with
  | nil => simp
  | cons f rest ih =>
    rw [List.foldl_cons, ih, List.filter_cons]
    show (if f.isRequired then _ else _) ++ _ = _
    split <;> simp

/-- Structures with named fields differ in their required properties only. -/
theorem Component.of_named_instance (hlength : args.length = params.length) (generic hand : String)
    (fields : List Field) :
    (of known ⟨generic, args⟩ (Shape.ofFields params (.named fields))).withoutRequired =
      (of known ⟨hand, []⟩ (Shape.ofFields []
        ((Fields.named fields).instantiate (params.zip args)))).withoutRequired := by
  show (List.foldl (addField known params args) _ _).withoutRequired =
    (List.foldl (addField known [] []) _ ((fields.map _).filterMap _)).withoutRequired
  rw [Shape.filterMap_ofField?_instantiate]
  exact withoutRequired_foldl_addField hlength _ rfl

/-- A field that is kept is optional in the instance exactly if it is declared so. -/
theorem isRequired_instantiate {fields : List Field}
    (hform : (Fields.named fields).KeepsForm given) {f : FieldShape}
    (hf : f ∈ fields.filterMap Shape.ofField?) :
    f.isRequired = (FieldShape.isRequired ∘ FieldShape.instantiate given) f := by
  obtain ⟨field, hfield, hof⟩ := List.mem_filterMap.1 hf
  obtain ⟨htype, hkept⟩ := Shape.ofField?_eq_some hof
  have hoption := hform field hfield hkept
  rw [← htype] at hoption
  show (f.type.name != "Option") = ((f.type.instantiate given).name != "Option")
  by_cases h : f.type.name = "Option"
  · rw [h, hoption.2 h]
  · rw [bne_iff_ne.2 h, bne_iff_ne.2 fun h' => h (hoption.1 h')]

/-- An instance has the component that it has when it is written by hand. -/
theorem Component.of_instance (hlength : args.length = params.length) (generic hand : String)
    {fields : Fields} (hform : fields.KeepsForm (params.zip args)) :
    of known ⟨generic, args⟩ (Shape.ofFields params fields) =
      of known ⟨hand, []⟩ (Shape.ofFields [] (fields.instantiate (params.zip args))) := by
  cases fields with
  | named fields =>
    refine eq_of_withoutRequired (of_named_instance hlength generic hand fields) ?_
    show (List.foldl (addField known params args) _ _).fragment.required =
      (List.foldl (addField known [] []) _ ((fields.map _).filterMap _)).fragment.required
    rw [Shape.filterMap_ofField?_instantiate, required_foldl_addField, required_foldl_addField,
      List.filter_map, List.map_map, List.filter_congr fun f hf => isRequired_instantiate hform hf]
    rfl
  | unnamed fields =>
    -- only a single unnamed field has its type looked at; several ones make an object without
    -- properties
    match fields with
    | [] => rfl
    | [f] =>
      have htype : f.type.instantiate (params.zip args) = f.type := hform
      show of known _ (.newtype f.type) = of known _ (.newtype (f.type.instantiate _))
      rw [htype]
      rfl
    | _ :: _ :: _ => rfl
  | unit => rfl

end Fields

end EndpointDocs
