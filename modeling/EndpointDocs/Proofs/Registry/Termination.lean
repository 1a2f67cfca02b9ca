import EndpointDocs.Proofs.Registry.Extends
import EndpointDocs.Proofs.Registry.Growth

/-!
# Whether resolving ends

Resolving a type ends, with enough depth, exactly if finitely many types have to be followed
(`finite_followed_of_run`, `ends_of_finite_followed`). A key in progress cuts a recursion off only
where it comes back to the same type, so recursive declarations alone are no reason to end: one that
mentions itself with a larger argument is followed without end (`not_ends_nest`). Where no parameter
grows on a cycle of the declarations, resolving ends for every type (`resolve_ends`).
-/

namespace EndpointDocs

/-! ## Finitely many shapes

A program declares finitely many types, whether they are given as a map or read from files. That is
all that is asked of a resolver; instances of generic types are infinitely many in any case. -/

/-- The names are the keys of the map. -/
theorem Resolver.isFinite_ofMap (shapes : KeyMap String Shape) :
    (Resolver.ofMap shapes).IsFinite := by
  refine (List.finite_toSet shapes.keys).subset fun name hname => ?_
  exact KeyMap.mem_keys_iff.2 (Option.isSome_iff_exists.1 hname)

namespace Shape

open Source

/-- The names of the structures and enumerations among items. -/
def itemNames : List Item → List String
  | [] => []
  | .struct n _ _ :: rest => n :: itemNames rest
  | .enum n _ :: rest => n :: itemNames rest
  | .module items :: rest => itemNames items ++ itemNames rest
  | .other :: rest => itemNames rest

/-- What is found has one of the names. The cases are those of the search. -/
theorem mem_itemNames {name : String} {items : List Item}
    (h : (findItem? name items).isSome = true) : name ∈ itemNames items := by
  fun_induction findItem? name items with
  | case1 => cases h
  | case2 params fields rest =>
    rw [itemNames]
    exact List.mem_cons_self
  | case3 n params fields rest hn ih =>
    rw [itemNames]
    exact List.mem_cons_of_mem _ (ih h)
  | case4 variants rest =>
    rw [itemNames]
    exact List.mem_cons_self
  | case5 n variants rest hn ih =>
    rw [itemNames]
    exact List.mem_cons_of_mem _ (ih h)
  | case6 items rest ih ih' =>
    rw [itemNames, List.mem_append]
    -- the items of the module come first, and then those behind it
    cases hfound : findItem? name items with
    | none =>
      rw [hfound] at h
      exact .inr (ih' h)
    | some item => exact .inl (ih (by rw [hfound]; rfl))
  | case7 rest ih =>
    rw [itemNames]
    exact ih h

end Shape

/-- The names are those of the items of all files. -/
theorem Resolver.isFinite_ofSources (files : List (List Source.Item)) :
    (Resolver.ofSources files).IsFinite := by
  refine (List.finite_toSet (files.flatMap Shape.itemNames)).subset fun name hname => ?_
  obtain ⟨shape, hshape⟩ := Option.isSome_iff_exists.1 hname
  obtain ⟨item, hitem, -⟩ := Option.bind_eq_some_iff.1 hshape
  obtain ⟨file, hfile, hfound⟩ := List.exists_of_findSome?_eq_some hitem
  exact List.mem_flatMap.2 ⟨file, hfile, Shape.mem_itemNames (by rw [hfound]; rfl)⟩

namespace Registry

variable {resolver : Resolver} {p : TypeExpr → Prop} {r s : Registry} {t u : TypeExpr} {v : Variant}

/-! ## The types that are followed

What a type is about, what this mentions, and so on. Each of these types has to be registered, under
a key of its own if names are plain, so it is their number that decides. -/

/-- With enough depth there is an answer. -/
def Ends (resolver : Resolver) (t : TypeExpr) (v : Variant) (r : Registry) : Prop :=
  ∃ depth x, (resolve resolver depth t v).run r = some x

/-- What a followed type mentions is followed. -/
theorem closed_followed (t : TypeExpr) : Closed resolver (· ∈ resolver.followed t) := by
  rintro w shape u ⟨core, hcore, hreach⟩ hs hu
  exact ⟨core, hcore, hreach.tail ⟨shape, hs, hu⟩⟩

/-- The type itself is the first one. -/
theorem core?_mem_followed : ∀ u ∈ t.core?, u ∈ resolver.followed t :=
  fun u hu => ⟨u, hu, .refl⟩

/-- What holds of a type and of all that is mentioned holds of what is followed. -/
theorem of_mem_followed (hp : Closed resolver p) (ht : ∀ u ∈ t.core?, p u)
    (hu : u ∈ resolver.followed t) : p u := by
  obtain ⟨core, hcore, hreach⟩ := hu
  induction hreach with
  | refl => exact ht core hcore
  | tail _ hmention ih =>
    obtain ⟨shape, hs, hu⟩ := hmention
    exact hp _ shape _ ih hs hu

/-- The depth that is needed is the number of keys. -/
theorem ends_of_finite_followed (hp : Closed resolver p) (hr : Sound resolver p r)
    (ht : ∀ u ∈ t.core?, p u) (v : Variant) (hfinite : (resolver.followed t).Finite) :
    Ends resolver t v r := by
  let keys := (hfinite.image TypeExpr.refKey).toFinset.toList
  have hawaits : Awaits (· ∈ resolver.followed t) keys r := by
    intro u hu
    refine .inr (Finset.mem_toList.2 ?_)
    rw [Set.Finite.mem_toFinset]
    exact Set.mem_image_of_mem _ hu
  exact ⟨keys.length, resolve_returns hp (closed_followed t) (fun u hu => of_mem_followed hp ht hu)
    core?_mem_followed hr hawaits v⟩

/-- At the end every type that is followed is in the memo, under a key of its own. -/
theorem finite_followed_of_run (hp : Closed resolver p) (hw : ∀ u, p u → u.WellNamed)
    (hr : Valid resolver p r) (ht : ∀ u ∈ t.core?, p u) {depth : Nat}
    {answer : Except ResolutionError Schema}
    (hrun : (resolve resolver depth t v).run r = some (answer, s)) :
    (resolver.followed t).Finite := by
  have hresolved := resolved_of_run hp ht hr hrun
  have hs := hresolved.valid hr
  have hcore : ∀ u ∈ t.core?, p u ∧ ∃ x, s.memo.get? u.refKey = some x := by
    intro u hu
    rcases hresolved.memo_core u hu with ⟨c, hc⟩ | ⟨e, -, he⟩
    · exact ⟨ht u hu, .ok c, hc⟩
    · exact ⟨ht u hu, .error e, he⟩
  have hknown : ∀ u ∈ resolver.followed t, p u ∧ ∃ x, s.memo.get? u.refKey = some x :=
    fun u hu => of_mem_followed (hs.sound.closed_memo hp hw hs.idle) hcore hu
  -- the memo has finitely many keys, and a well-named type is known by its key
  have hkeys : (TypeExpr.refKey '' resolver.followed t).Finite := by
    refine (List.finite_toSet s.memo.keys).subset ?_
    rintro _ ⟨u, hu, rfl⟩
    exact KeyMap.mem_keys_iff.2 (hknown u hu).2
  have hinjective : Set.InjOn TypeExpr.refKey (resolver.followed t) :=
    fun u hu u' hu' hkey =>
      TypeExpr.refKey_injective (hw u (hknown u hu).1) (hw u' (hknown u' hu').1) hkey
  exact hkeys.of_finite_image hinjective

/-- Resolving a type ends if no parameter grows on a cycle of the declarations. With plain names it
ends exactly if finitely many types are followed. -/
theorem resolve_ends (hp : Closed resolver p) (hr : Valid resolver p r) (ht : ∀ u ∈ t.core?, p u)
    (v : Variant) :
    (resolver.IsFinite → resolver.NoGrowingCycle → Ends resolver t v r) ∧
      ((∀ u, p u → u.WellNamed) → (Ends resolver t v r ↔ (resolver.followed t).Finite)) := by
  refine ⟨fun hfinite hcycle => ?_, fun hw => ⟨?_, ?_⟩⟩
  · exact ends_of_finite_followed hp hr.sound ht v (Resolver.finite_followed hfinite hcycle t)
  · rintro ⟨depth, ⟨answer, s⟩, hrun⟩
    exact finite_followed_of_run hp hw hr ht hrun
  · exact ends_of_finite_followed hp hr.sound ht v

/-! ## Pages

The criterion at work: a generic type that mentions itself, with its parameter passed on as it is.
-/

/-- The items of the page, and the next page. -/
def pageFields : List FieldShape :=
  [⟨"items", ⟨"Vec", [⟨"T", []⟩]⟩, none⟩,
    ⟨"next", ⟨"Option", [⟨"Box", [⟨"Page", [⟨"T", []⟩]⟩]⟩]⟩, none⟩]

/-- A page of items, with another page of them behind it. -/
def pages : Resolver :=
  .ofMap ((∅ : KeyMap String Shape).insert "Page" (.struct ["T"] pageFields))

/-- There is nothing else. -/
theorem pages_eq_some {name : String} {shape : Shape} (h : pages name = some shape) :
    name = "Page" ∧ shape = .struct ["T"] pageFields := by
  unfold pages Resolver.ofMap at h
  rw [KeyMap.get?_insert] at h
  split at h
  · next hname => exact ⟨hname, (Option.some.inj h).symm⟩
  · cases h

/-- Its types have plain names. -/
theorem wellNamed_pages : pages.WellNamed := by
  intro name shape h
  obtain ⟨-, rfl⟩ := pages_eq_some h
  decide

/-- A page passes its items on as they are. -/
theorem noGrowingCycle_pages : pages.NoGrowingCycle := by
  have hpages : ∀ f ∈ pageFields, ∀ e ∈ f.type.parts, e.name = "Page" → e.args = [⟨"T", []⟩] := by
    decide
  refine Resolver.noGrowingCycle_of_rank (fun q => if q.name = "Page" then 0 else 1) ?_ ?_
  · rintro p q ⟨a, generics, fields, hs, -⟩
    simp only [(pages_eq_some hs).1, if_true, Nat.zero_le]
  · rintro p q ⟨a, ⟨generics, fields, hs, f, hf, e, he, hname, hindex, -⟩, ha⟩
    obtain ⟨hp, hshape⟩ := pages_eq_some hs
    cases hshape
    have hq : q.name ≠ "Page" := by
      intro hpage
      rw [hpages f hf e he (hname.trans hpage)] at hindex
      rw [List.mem_singleton.1 (List.mem_of_getElem? hindex)] at ha
      exact ha rfl
    simp only [hp, hq, if_true, if_false, Nat.zero_lt_one]

/-- A page of the given items. -/
def pageOf (item : TypeExpr) : TypeExpr := ⟨"Page", [item]⟩

/-- Both parts of the theorem, for a page of strings. -/
theorem resolve_pages_ends :
    Ends pages (pageOf ⟨"String", []⟩) .default {} ∧
      (pages.followed (pageOf ⟨"String", []⟩)).Finite := by
  have hempty : Valid pages TypeExpr.WellNamed {} := .empty
  have hpage : (pageOf ⟨"String", []⟩).WellNamed := by decide
  have hends := resolve_ends (closed_wellNamed wellNamed_pages) hempty
    (fun u => TypeExpr.wellNamed_of_core? hpage) .default
  have hanswer := hends.1 (Resolver.isFinite_ofMap _) noGrowingCycle_pages
  exact ⟨hanswer, (hends.2 fun _ => id).1 hanswer⟩

/-! ## Nests

The other side of it: with every step the argument is a list more. No key comes back, so neither the
memo nor the keys in progress ever answer for one. -/

/-- A nest of the given values. -/
def nestOf (value : TypeExpr) : TypeExpr := ⟨"Nest", [value]⟩

/-- A nest of lists, which may be missing. -/
def nestNext : TypeExpr := ⟨"Option", [⟨"Box", [nestOf (.listOf ⟨"T", []⟩)]⟩]⟩

/-- A value, with a nest of lists behind it. -/
def nests : Resolver :=
  .ofSources [[.struct "Nest" ["T"] (.named [⟨some "value", ⟨"T", []⟩, {}, none⟩,
    ⟨some "next", nestNext, {}, none⟩])]]

/-- The shape that is read for it. -/
def nestShape : Shape :=
  .struct ["T"] [⟨"value", ⟨"T", []⟩, none⟩, ⟨"next", nestNext, none⟩]

/-- The only structure in the file. -/
theorem nests_eq {name : String} : nests name = if "Nest" = name then some nestShape else none := by
  by_cases hname : "Nest" = name
  · simp [nests, Resolver.ofSources, Shape.findItem?, hname, Shape.ofItem?, Shape.ofFields,
      Shape.ofField?, nestShape]
  · simp [nests, Resolver.ofSources, Shape.findItem?, hname]

/-- A nest mentions one of lists. -/
theorem mentions_nest (value : TypeExpr) :
    nests.Mentions (nestOf value) (nestOf (.listOf value)) := by
  refine ⟨nestShape, nests_eq.trans (if_pos rfl), List.mem_filterMap.2
    ⟨⟨"Option", [⟨"Box", [nestOf (.listOf value)]⟩]⟩, ?_, rfl⟩⟩
  exact List.mem_cons_of_mem _ (List.mem_singleton.2 rfl)

/-- The criterion does not fail for the names. -/
theorem wellNamed_nests : nests.WellNamed := by
  intro name shape h
  rw [nests_eq] at h
  split at h
  · cases h
    decide
  · cases h

/-- Strings in lists that stand inside each other. -/
def listsOfStrings : Nat → TypeExpr
  | 0 => ⟨"String", []⟩
  | n + 1 => .listOf (listsOfStrings n)

/-- As many lists as there are, which tells these types apart. -/
theorem height_listsOfStrings (n : Nat) : (listsOfStrings n).height = n := by
  induction n with
  | zero => rfl
  | succ n ih => simp [listsOfStrings, TypeExpr.listOf, TypeExpr.height, TypeExpr.heightOfAll, ih]

/-- The induction is on the number of lists. -/
theorem listsOfStrings_mem_followed (n : Nat) :
    nestOf (listsOfStrings n) ∈ nests.followed (nestOf (listsOfStrings 0)) := by
  induction n with
  | zero => exact core?_mem_followed _ rfl
  | succ n ih =>
    obtain ⟨core, hcore, hreach⟩ := ih
    exact ⟨core, hcore, hreach.tail (mentions_nest _)⟩

/-- For every number there is a nest to follow. -/
theorem infinite_followed_nest : (nests.followed (nestOf (listsOfStrings 0))).Infinite := by
  refine Set.infinite_of_injective_forall_mem (fun m n h => ?_) listsOfStrings_mem_followed
  have hargs : listsOfStrings m = listsOfStrings n := (List.cons.inj (TypeExpr.mk.inj h).2).1
  rw [← height_listsOfStrings m, hargs, height_listsOfStrings]

/-- Resolving a nest of strings does not end: there is always another nest to follow. -/
theorem not_ends_nest : nests.IsFinite ∧ ¬ Ends nests (nestOf ⟨"String", []⟩) .default {} := by
  refine ⟨Resolver.isFinite_ofSources _, ?_⟩
  rintro ⟨depth, ⟨answer, s⟩, hrun⟩
  have hnest : (nestOf ⟨"String", []⟩).WellNamed := by decide
  exact infinite_followed_nest (finite_followed_of_run (closed_wellNamed wellNamed_nests)
    (fun _ => id) .empty (fun u => TypeExpr.wellNamed_of_core? hnest) hrun)

end Registry

end EndpointDocs
