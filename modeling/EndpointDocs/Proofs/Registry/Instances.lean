import EndpointDocs.Proofs.Registry.Instantiation
import EndpointDocs.Proofs.Registry.Reference

/-!
# Instances in the registry

After any calls the registry holds the same component for an instance of a generic structure as for
the structure by hand, if replacing the parameters keeps the form of the fields
(`Registry.stored_instance`). It asks the declared type whether a field is optional
(`Registry.optional_instance_required`) and does not replace anything in a single unnamed field
(`Registry.wrapper_not_instantiated`).
-/

namespace EndpointDocs

/-! ## Sessions

A session is compared with its reference (`Simulates`), whose list of resolved types only grows. So
a type that was asked for at any time is resolved in the end, and by soundness of the memo it is
stored with the component that the resolver describes. -/

namespace Registry

variable {resolver : Resolver} {state : Reference} {t u : TypeExpr} {depth : Nat}

/-- No call makes the reference forget a type. -/
theorem Reference.resolved_subset_perform (call : Call) :
    state.resolved ⊆ (state.perform resolver call).2.resolved := by
  cases call with
  | resolve t v =>
    cases h : resolver.answer t with
    | error e =>
      rw [perform_resolve_error h]
      exact List.Subset.refl _
    | ok s =>
      rw [perform_resolve_ok h]
      exact List.subset_append_left _ _
  | inject key v sample =>
    cases h : known? resolver state.resolved key with
    | none =>
      rw [perform_inject_none h]
      exact List.Subset.refl _
    | some u =>
      rw [perform_inject_some h]
      exact List.Subset.refl _
  | lookup | flush | snapshot | restore => exact List.Subset.refl _

/-- A known type that is asked for is resolved behind the call. -/
theorem Reference.mem_resolved_perform {v : Variant} (hcore : t.core? = some u)
    (hknown : resolver.knows u = true) :
    u ∈ (state.perform resolver (.resolve t v)).2.resolved := by
  have hanswer : ∃ s, resolver.answer t = .ok s := by
    unfold Resolver.answer
    rcases hpeel : t.peel with ⟨ws, schema | core⟩
    · exact ⟨_, rfl⟩
    · rw [TypeExpr.core?_of_peel_named hpeel] at hcore
      cases hcore
      exact ⟨_, if_pos hknown⟩
  obtain ⟨s, hanswer⟩ := hanswer
  rw [perform_resolve_ok hanswer]
  exact List.mem_append_right _ (Option.mem_toList.2 hcore)

/-- Behind a session stands a reference that has resolved all known types that were asked for. The
induction is on the calls. -/
theorem Simulates.exists_of_run (hresolver : resolver.WellNamed) {calls : List Call}
    (hcalls : ∀ t v, .resolve t v ∈ calls → t.WellNamed) {answers : List Answer}
    {session session' : Session} (h : Simulates resolver state session)
    (hrun : session.run resolver depth calls = some (answers, session')) :
    ∃ last, Simulates resolver last session' ∧ state.resolved ⊆ last.resolved ∧
      ∀ t v u, .resolve t v ∈ calls → t.core? = some u → resolver.knows u = true →
        u ∈ last.resolved := by
  induction calls generalizing session state answers with
  | nil =>
    cases hrun
    exact ⟨state, h, List.Subset.refl _, fun t v u hmem => nomatch hmem⟩
  | cons call rest ih =>
    obtain ⟨⟨answer, next⟩, hcall, hrun⟩ := Option.bind_eq_some_iff.1 hrun
    obtain ⟨⟨later, final⟩, hrest, hreturn⟩ := Option.bind_eq_some_iff.1 hrun
    cases hreturn
    obtain ⟨-, hnext⟩ := h.perform hresolver
      (fun t v he => hcalls t v (he ▸ List.mem_cons_self)) hcall
    obtain ⟨last, hlast, hsubset, hmem⟩ :=
      ih (fun t v ht => hcalls t v (List.mem_cons_of_mem _ ht)) hnext hrest
    -- what was resolved before the call stays resolved
    refine ⟨last, hlast, List.Subset.trans (Reference.resolved_subset_perform call) hsubset, ?_⟩
    intro t v u ht hcore hknown
    rcases List.mem_cons.1 ht with rfl | ht
    · exact hsubset (Reference.mem_resolved_perform hcore hknown)
    · exact hmem t v u ht hcore hknown

/-- What the memo of a session holds for a type is the component of the type. -/
theorem Simulates.component?_eq {session : Session} (hresolver : resolver.WellNamed)
    (h : Simulates resolver state session) (ht : t.WellNamed) {c : Component}
    (hc : session.registry.memo.get? t.refKey = some (.ok c)) : resolver.component? t = some c :=
  h.valid.sound.component?_eq (Met.closed hresolver) (fun _ => Met.wellNamed) ht hc

/-! ## Instances in a session

What remains is a fact about the resolver: an instance of a generic structure has the component of
the structure by hand (`Component.of_instance`). A session comes in only through what it stores. -/

/-- The component of a type is in the memo of the registry. -/
def Stores (r : Registry) (t : TypeExpr) (c : Component) : Prop :=
  r.memo.get? t.refKey = some (.ok c)

open Source

/-- A generic structure and one by hand that has the fields of an instance get the same component,
if replacing the parameters keeps the form of the fields; of named fields only the list of required
ones may differ. Both have a component if they are asked for. -/
theorem stored_instance {texts : List String} {files : List (List Item)} {generic hand : String}
    {params : List String} {fields : Fields} {args : List TypeExpr} {calls : List Call}
    {answers : List Answer} {session : Session}
    (hread : texts.mapM items? = some files)
    (hgeneric : struct? files generic = some (params, fields))
    (hlength : args.length = params.length)
    (hhand : struct? files hand = some ([], fields.instantiate (params.zip args)))
    (hargs : ∀ a ∈ args, a.WellNamed) (hcalls : ∀ t v, .resolve t v ∈ calls → t.WellNamed)
    (hrun : Session.run (.ofSources files) depth calls {} = some (answers, session)) :
    (∀ t v u, .resolve t v ∈ calls → t.core? = some u → u = ⟨generic, args⟩ ∨ u = ⟨hand, []⟩ →
      ∃ c, session.registry.Stores u c) ∧
    ∀ c d, session.registry.Stores ⟨generic, args⟩ c → session.registry.Stores ⟨hand, []⟩ d →
      (fields.KeepsForm (params.zip args) → c = d) ∧
      ∀ named, fields = .named named → c.withoutRequired = d.withoutRequired := by
  have hitems := wellNamed_of_texts hread
  have hresolver := Resolver.wellNamed_ofSources hitems
  -- the run is simulated by the reference, which says what is stored
  obtain ⟨last, hlast, -, hmem⟩ := Simulates.initial.exists_of_run hresolver hcalls hrun
  have hshape := ofSources_of_struct? hgeneric
  have hshape' := ofSources_of_struct? hhand
  constructor
  · intro t v u ht hcore hu
    have hknown : Resolver.knows (.ofSources files) u = true := by
      rcases hu with rfl | rfl
      · exact Resolver.knows_of_eq_some hshape
      · exact Resolver.knows_of_eq_some hshape'
    exact (hlast.resolved u (hmem t v u ht hcore hknown)).2
  · intro c d hc hd
    -- both components are what the resolver gives for the two types, so only the shapes are left
    have hnamed : (⟨generic, args⟩ : TypeExpr).WellNamed :=
      TypeExpr.wellNamed_iff.2 ⟨plainName_of_struct? hitems hgeneric, hargs⟩
    have hnamed' : (⟨hand, []⟩ : TypeExpr).WellNamed := ⟨plainName_of_struct? hitems hhand, trivial⟩
    obtain ⟨shape, hs, rfl⟩ :=
      Resolver.component?_eq_some.1 (hlast.component?_eq hresolver hnamed hc)
    obtain ⟨shape', hs', rfl⟩ :=
      Resolver.component?_eq_some.1 (hlast.component?_eq hresolver hnamed' hd)
    obtain rfl := Option.some.inj (hs.symm.trans hshape)
    obtain rfl := Option.some.inj (hs'.symm.trans hshape')
    refine ⟨Component.of_instance hlength generic hand, ?_⟩
    rintro named rfl
    exact Component.of_named_instance hlength generic hand named

/-! ### Structures for users

The examples are read from texts, as a program would be. Evaluating a session against the files
themselves is too much, so the files are replaced by the structures in them: `ofStructs` answers as
they do, and is small enough to compute with. -/

/-- A structure as it was read: its name, its parameters and its fields. -/
abbrev Declared := String × List String × Fields

/-- The structure that an item declares. -/
def structOf? : Item → Option Declared
  | .struct name params fields => some (name, params, fields)
  | _ => none

/-- The item of a structure. -/
def ofStruct (s : Declared) : Item := .struct s.1 s.2.1 s.2.2

/-- Items that are all structures are known from these. -/
theorem eq_of_structOf? {items : List Item} {structs : List Declared}
    (h : items.map structOf? = structs.map some) : items = structs.map ofStruct := by
  induction items generalizing structs with
  | nil =>
    cases structs with
    | nil => rfl
    | cons => cases h
  | cons item rest ih =>
    cases structs with
    | nil => cases h
    | cons s others =>
      obtain ⟨hitem, hrest⟩ := List.cons.inj h
      rw [ih hrest, List.map_cons]
      cases item with
      | struct => cases hitem; rfl
      | _ => cases hitem

/-- The first structure of the name, as in a list of items. -/
theorem findItem?_ofStruct (name : String) (structs : List Declared) :
    Shape.findItem? name (structs.map ofStruct) =
      (structs.find? fun s => s.1 = name).map ofStruct := by
  induction structs with
  | nil => rw [List.map_nil, Shape.findItem?]; rfl
  | cons s rest ih =>
    rw [List.map_cons, List.find?_cons]
    show Shape.findItem? name (.struct s.1 s.2.1 s.2.2 :: rest.map ofStruct) = _
    rw [Shape.findItem?]
    by_cases hname : s.1 = name
    · simp [hname, ofStruct]
    · simp [hname, ih]

/-- Answers from structures alone. -/
def ofStructs (structs : List Declared) : Resolver := fun name =>
  (structs.find? fun s => s.1 = name).map fun s => Shape.ofFields s.2.1 s.2.2

section

variable {files : List (List Item)} {structs : List Declared}

/-- Files of structures answer as their structures. -/
theorem ofSources_ofStruct (h : files.flatten = structs.map ofStruct) :
    Resolver.ofSources files = ofStructs structs := by
  funext name
  rw [Resolver.ofSources, Shape.findSome?_findItem?, h, findItem?_ofStruct, ofStructs]
  cases structs.find? fun s => s.1 = name <;> rfl

theorem struct?_ofStruct (h : files.flatten = structs.map ofStruct) (name : String) :
    struct? files name = (structs.find? fun s => s.1 = name).map Prod.snd := by
  rw [struct?, Shape.findSome?_findItem?, h, findItem?_ofStruct]
  cases structs.find? fun s => s.1 = name <;> rfl

end

/-- The component of a type, if there is one in the memo. -/
def stored? (r : Registry) (t : TypeExpr) : Option Component :=
  (r.memo.get? t.refKey).bind Except.toOption

theorem stores_of_stored? {r : Registry} {c : Component} (h : r.stored? t = some c) :
    r.Stores t c := by
  obtain ⟨x, hx, hc⟩ := Option.bind_eq_some_iff.1 h
  cases x with
  | ok d =>
    cases hc
    exact hx
  | error e => cases hc

/-- Three generic structures, each with one by hand for an instance of it: a page, whose parameter
is in the fields; a wrapper, whose single field has no name; and a slot, whose field is the
parameter. -/
def userTexts : List String :=
  ["struct User \x7b name: String \x7d",
    "struct Page<T> \x7b
      #[serde(rename = \"rows\")] items: Vec<T>,
      next: Option<Box<Page<T>>>
    \x7d",
    "struct UserPage \x7b
      #[serde(rename = \"rows\")] items: Vec<User>,
      next: Option<Box<Page<User>>>
    \x7d",
    "struct Wrapper<T>(Vec<T>); struct Users(Vec<User>);",
    "struct Slot<T> \x7b value: T \x7d struct UserSlot \x7b value: Option<User> \x7d"]

def user : TypeExpr := ⟨"User", []⟩

/-- What makes the slot differ: the field is optional in the instance only. -/
def optionalUser : TypeExpr := ⟨"Option", [user]⟩

/-- The fields of a page. -/
def rowsOf (item : TypeExpr) : Fields :=
  .named [⟨some "items", ⟨"Vec", [item]⟩, { renamed := some "rows" }, none⟩,
    ⟨some "next", ⟨"Option", [⟨"Box", [⟨"Page", [item]⟩]⟩]⟩, {}, none⟩]

/-- The field of a wrapper. -/
def wrapperOf (item : TypeExpr) : Fields := .unnamed [⟨none, ⟨"Vec", [item]⟩, {}, none⟩]

/-- The field of a slot. -/
def slotOf (value : TypeExpr) : Fields := .named [⟨some "value", value, {}, none⟩]

/-- The structures that the texts declare, in their order. -/
def userStructs : List Declared :=
  [("User", [], .named [⟨some "name", ⟨"String", []⟩, {}, none⟩]),
    ("Page", ["T"], rowsOf ⟨"T", []⟩), ("UserPage", [], rowsOf user),
    ("Wrapper", ["T"], wrapperOf ⟨"T", []⟩), ("Users", [], wrapperOf user),
    ("Slot", ["T"], slotOf ⟨"T", []⟩), ("UserSlot", [], slotOf optionalUser)]

/-- The texts are read, and declare these structures and nothing else. -/
theorem read_userTexts : ∃ files, userTexts.mapM items? = some files ∧
    files.flatten = userStructs.map ofStruct := by
  have hread : (userTexts.mapM items?).map (fun files => files.flatten.map structOf?) =
      some (userStructs.map some) := by decide +kernel
  obtain ⟨files, hfiles, hstructs⟩ := Option.map_eq_some_iff.1 hread
  exact ⟨files, hfiles, eq_of_structOf? hstructs⟩

/-- Each instance is asked for, and then the structure that has its fields. -/
def userTypes : List TypeExpr :=
  [⟨"Page", [user]⟩, ⟨"UserPage", []⟩, ⟨"Wrapper", [user]⟩, ⟨"Users", []⟩,
    ⟨"Slot", [optionalUser]⟩, ⟨"UserSlot", []⟩]

def userCalls : List Call := userTypes.map fun t => .resolve t .default

/-- All types that are asked for have plain names. -/
theorem wellNamed_userCalls (t : TypeExpr) (v : Variant) (h : .resolve t v ∈ userCalls) :
    t.WellNamed := by
  have huser : ∀ t ∈ userTypes, t.WellNamed := by
    simp [userTypes, optionalUser, user, TypeExpr.WellNamed, TypeExpr.AllWellNamed, PlainName]
  obtain ⟨t', ht', hcall⟩ := List.mem_map.1 h
  cases hcall
  exact huser t ht'

/-- Behind the calls the registry has the first component for a generic structure of the texts with
an argument, and the second one for a structure with the fields of this instance. -/
def Compares (generic : String) (fields : Fields) (arg : TypeExpr) (hand : String)
    (c d : Component) : Prop :=
  ∃ files answers session, userTexts.mapM items? = some files ∧
    struct? files generic = some (["T"], fields) ∧
    struct? files hand = some ([], fields.instantiate (["T"].zip [arg])) ∧
    Session.run (.ofSources files) 2 userCalls {} = some (answers, session) ∧
    session.registry.Stores ⟨generic, [arg]⟩ c ∧ session.registry.Stores ⟨hand, []⟩ d

/-- Two components that are compared pass a check. -/
theorem exists_compares (generic : String) (fields : Fields) (arg : TypeExpr) (hand : String)
    (check : Component → Component → Bool)
    (hgeneric : (userStructs.find? fun s => s.1 = generic).map Prod.snd = some (["T"], fields))
    (hhand : (userStructs.find? fun s => s.1 = hand).map Prod.snd =
      some ([], fields.instantiate (["T"].zip [arg])))
    (h : ((Session.run (ofStructs userStructs) 2 userCalls {}).any fun found =>
      (found.2.registry.stored? ⟨generic, [arg]⟩).any fun c =>
        (found.2.registry.stored? ⟨hand, []⟩).any (check c)) = true) :
    ∃ c d, Compares generic fields arg hand c d ∧ check c d = true := by
  obtain ⟨files, hfiles, hstructs⟩ := read_userTexts
  -- the run is evaluated once, and gives all that the comparison is about
  obtain ⟨⟨answers, session⟩, hrun, h⟩ := (Option.any_eq_true _ _).1 h
  obtain ⟨c, hc, h⟩ := (Option.any_eq_true _ _).1 h
  obtain ⟨d, hd, hcheck⟩ := (Option.any_eq_true _ _).1 h
  refine ⟨c, d, ⟨files, answers, session, hfiles, ?_, ?_, ?_, stores_of_stored? hc,
    stores_of_stored? hd⟩, hcheck⟩
  · rw [struct?_ofStruct hstructs, hgeneric]
  · rw [struct?_ofStruct hstructs, hhand]
  · rw [ofSources_ofStruct hstructs, hrun]

/-- A page of users is the structure with the users in it. -/
theorem stored_instance_page : ∃ c d,
    Compares "Page" (rowsOf ⟨"T", []⟩) user "UserPage" c d ∧
      c.dependencies.contains "User" = true ∧ c = d := by
  obtain ⟨c, d, hcompares, hcheck⟩ := exists_compares "Page" (rowsOf ⟨"T", []⟩) user "UserPage"
    (fun c _ => c.dependencies.contains "User") (by decide +kernel) (by decide +kernel)
    (by decide +kernel)
  obtain ⟨files, answers, session, hfiles, hgeneric, hhand, hrun, hc, hd⟩ := id hcompares
  have hargs : ∀ a ∈ [user], a.WellNamed := by
    simp [user, TypeExpr.WellNamed, TypeExpr.AllWellNamed, PlainName]
  have hform : (rowsOf ⟨"T", []⟩).KeepsForm (["T"].zip [user]) := by
    unfold rowsOf Fields.KeepsForm
    decide +kernel
  have hstored := stored_instance hfiles hgeneric rfl hhand hargs wellNamed_userCalls hrun
  exact ⟨c, d, hcompares, hcheck, (hstored.2 c d hc hd).1 hform⟩

/-- The parameter of a wrapper is taken for the name of a type. -/
theorem wrapper_not_instantiated : ∃ c d,
    Compares "Wrapper" (wrapperOf ⟨"T", []⟩) user "Users" c d ∧
      c.dependencies.contains "User" = false ∧ d.dependencies.contains "User" = true := by
  obtain ⟨c, d, hcompares, hcheck⟩ := exists_compares "Wrapper" (wrapperOf ⟨"T", []⟩) user "Users"
    (fun c d => !c.dependencies.contains "User" && d.dependencies.contains "User")
    (by decide +kernel) (by decide +kernel) (by decide +kernel)
  rw [Bool.and_eq_true, Bool.not_eq_true'] at hcheck
  exact ⟨c, d, hcompares, hcheck⟩

/-- An optional user in a slot is required. -/
theorem optional_instance_required : ∃ c d,
    Compares "Slot" (slotOf ⟨"T", []⟩) optionalUser "UserSlot" c d ∧
      c.fragment.required = ["value"] ∧ d.fragment.required = [] := by
  obtain ⟨c, d, hcompares, hcheck⟩ := exists_compares "Slot" (slotOf ⟨"T", []⟩) optionalUser
    "UserSlot" (fun c d => c.fragment.required = ["value"] && d.fragment.required = [])
    (by decide +kernel) (by decide +kernel) (by decide +kernel)
  rw [Bool.and_eq_true, decide_eq_true_eq, decide_eq_true_eq] at hcheck
  exact ⟨c, d, hcompares, hcheck⟩

end Registry

end EndpointDocs
