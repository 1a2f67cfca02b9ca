import EndpointDocs.Proofs.Generation.Building

/-!
# Taking up units

What taking up one unit can do is said once (`Processed`): nothing at all without a path and a
method, a rollback if there is an error, and otherwise a commit to the documents of its variants.
What a commit does to the documents is read off the first operation of each variant.

Later modules say what a run keeps by one lemma about `Processed` and one about the empty run; the
induction over the units is done here, once (`holds_of_processUnits`).
-/

namespace EndpointDocs

open Registry Resolving

/-! ## The endpoint of a unit

Path and method together are what a unit is filed under. Without either there is an outcome, but
nothing is built. -/

/-- The path and the method of a unit, if it has both. -/
def Endpoint.of? (unit : Element) : Option (String × Method) :=
  match Endpoint.path unit with
  | .error _ => none
  | .ok path =>
    match Endpoint.method unit path with
    | .error _ => none
    | .ok method => some (path, method)

/-! ## Commits

A unit is committed to several documents one after another, under different variants, so the commits
do not meet. If the variants of a unit are not all different, the first operation of each is the one
that counts (`firstOfEachVariant`). -/

/-- The operation is filed under its path and its method, and the others stay where they are. -/
theorem Document.operation?_addOperation {d : Document} {path other : String} {op : Operation}
    {method : Method} :
    (d.addOperation path op).operation? other method =
      if other = path ∧ method = op.method then some op else d.operation? other method := by
  unfold operation? addOperation
  rw [KeyMap.get?_alter]
  by_cases hpath : other = path
  · subst hpath
    rw [if_pos rfl, Option.bind_some, KeyMap.get?_insert]
    by_cases hmethod : method = op.method
    · rw [if_pos hmethod, if_pos ⟨rfl, hmethod⟩]
    -- a path that is new has no operation of another method
    · rw [if_neg hmethod, if_neg fun h => hmethod h.2]
      cases d.paths.get? other with
      | none => rfl
      | some item => rfl
  · rw [if_neg hpath, if_neg fun h => hpath h.1]

/-- Commit a unit to the documents of several variants. -/
def Run.commitAll (run : Run) (unit : Element) (path : String)
    (targets : List (Variant × Operation)) : Run :=
  targets.foldl (fun run p => run.commit unit path p.1 p.2) run

section Commit

variable {run : Run} {unit : Element} {path : String} {targets : List (Variant × Operation)}
variable {v : Variant}

/-- Commits are about documents only. -/
theorem registry_commitAll : (run.commitAll unit path targets).registry = run.registry := by
  unfold Run.commitAll
  induction targets generalizing run with
  | nil => rfl
  | cons p rest ih => exact ih

/-- The document of a target gets its operation, no other one changes. -/
theorem get?_documents_commitAll (hnodup : (targets.map Prod.fst).Nodup) :
    (run.commitAll unit path targets).documents.get? v =
      match Entries.find? v targets with
      | some op => some (((run.documents.get? v).getD {}).addOperation path op)
      | none => run.documents.get? v := by
  unfold Run.commitAll
  induction targets generalizing run with
  | nil => rfl
  | cons p rest ih =>
    obtain ⟨w, op⟩ := p
    obtain ⟨hw, hrest⟩ := List.nodup_cons.1 hnodup
    rw [List.foldl_cons, ih hrest, Entries.find?]
    by_cases hwv : w = v
    · subst hwv
      rw [if_pos rfl, Entries.find?_eq_none_iff.2 hw]
      show (run.documents.alter w _).get? w = _
      rw [KeyMap.get?_alter, if_pos rfl]
    -- the commit to another document does not touch this one
    · have hsame : (run.commit unit path w op).documents.get? v = run.documents.get? v := by
        show (run.documents.alter w _).get? v = _
        rw [KeyMap.get?_alter, if_neg (Ne.symm hwv)]
      rw [if_neg hwv, hsame]

/-- The unit is listed for each of the targets. -/
theorem get?_committed_commitAll (hnodup : (targets.map Prod.fst).Nodup) :
    (run.commitAll unit path targets).committed.get? v =
      if v ∈ targets.map Prod.fst then some ((run.committed.get? v).getD [] ++ [unit])
      else run.committed.get? v := by
  unfold Run.commitAll
  induction targets generalizing run with
  | nil => rfl
  | cons p rest ih =>
    obtain ⟨w, op⟩ := p
    obtain ⟨hw, hrest⟩ := List.nodup_cons.1 hnodup
    have hfirst : (run.commit unit path w op).committed.get? v =
        if v = w then some ((run.committed.get? w).getD [] ++ [unit])
        else run.committed.get? v := KeyMap.get?_alter _ _ _ _
    rw [List.foldl_cons, ih hrest, hfirst]
    simp only [List.map_cons, List.mem_cons]
    -- the key comes up once among the targets, so the unit is appended once
    by_cases hwv : v = w
    · subst hwv
      rw [if_neg hw, if_pos rfl, if_pos (.inl rfl)]
    · simp only [hwv, if_false, false_or]

/-- Add an operation unless its variant has one. -/
def addTarget (kept : List (Variant × Operation)) (p : Variant × Operation) :
    List (Variant × Operation) :=
  if p.1 ∈ kept.map Prod.fst then kept else kept ++ [p]

/-- No variant is kept twice. -/
theorem nodup_foldl_addTarget {operations : List (Variant × Operation)}
    (kept : List (Variant × Operation)) (h : (kept.map Prod.fst).Nodup) :
    ((operations.foldl addTarget kept).map Prod.fst).Nodup := by
  induction operations generalizing kept with
  | nil => exact h
  | cons p rest ih =>
    refine ih _ ?_
    unfold addTarget
    split
    · exact h
    · next hp =>
      rw [List.map_append, List.map_singleton, List.nodup_append_comm]
      exact List.nodup_cons.2 ⟨hp, h⟩

/-- What is kept was kept before or is one of the operations. -/
theorem mem_of_mem_foldl_addTarget {operations : List (Variant × Operation)}
    {q : Variant × Operation} (kept : List (Variant × Operation))
    (h : q ∈ operations.foldl addTarget kept) :
    q ∈ kept ∨ q ∈ operations := by
  induction operations generalizing kept with
  | nil => exact .inl h
  | cons p rest ih =>
    rcases ih _ h with h | h
    · unfold addTarget at h
      split at h
      · exact .inl h
      · rcases List.mem_append.1 h with h | h
        · exact .inl h
        · exact .inr (List.mem_singleton.1 h ▸ List.mem_cons_self)
    · exact .inr (List.mem_cons_of_mem _ h)

/-- Every variant has an operation at the end if it had one. -/
theorem mem_keys_foldl_addTarget {operations : List (Variant × Operation)}
    (kept : List (Variant × Operation)) :
    v ∈ (operations.foldl addTarget kept).map Prod.fst ↔
      v ∈ kept.map Prod.fst ∨ v ∈ operations.map Prod.fst := by
  induction operations generalizing kept with
  | nil => exact (or_iff_left List.not_mem_nil).symm
  | cons p rest ih =>
    have hadd : v ∈ (addTarget kept p).map Prod.fst ↔ v ∈ kept.map Prod.fst ∨ v = p.1 := by
      unfold addTarget
      split
      · next hp =>
        -- the variant has a target already, and the first one counts
        refine (or_iff_left_of_imp ?_).symm
        rintro rfl
        exact hp
      · rw [List.map_append, List.map_singleton, List.mem_append, List.mem_singleton]
    rw [List.foldl_cons, ih, hadd, List.map_cons, List.mem_cons, or_assoc]

theorem nodup_firstOfEachVariant {operations : List (Variant × Operation)} :
    ((firstOfEachVariant operations).map Prod.fst).Nodup :=
  nodup_foldl_addTarget [] List.nodup_nil

theorem mem_of_mem_firstOfEachVariant {operations : List (Variant × Operation)}
    {q : Variant × Operation} (h : q ∈ firstOfEachVariant operations) : q ∈ operations :=
  (mem_of_mem_foldl_addTarget [] h).resolve_left List.not_mem_nil

theorem mem_keys_firstOfEachVariant {operations : List (Variant × Operation)} :
    v ∈ (firstOfEachVariant operations).map Prod.fst ↔ v ∈ operations.map Prod.fst :=
  (mem_keys_foldl_addTarget []).trans (or_iff_right List.not_mem_nil)

/-- What was built for a variant of a unit is the operation of the unit. -/
theorem find?_firstOfEachVariant {plan : Plan} {method : Method} {variants : List Variant}
    {r s : Registry} {built : Built} {op : Operation}
    (hfilters : plan.filters = FilterSet.standard) (hresolver : plan.resolver.WellNamed)
    (hr : Valid plan.resolver TypeExpr.WellNamed r)
    (hbuilt : (buildVariants plan unit path method variants).run r = some (built, s))
    (herrors : built.errors = []) :
    Entries.find? v (firstOfEachVariant built.operations) = some op ↔
      v ∈ variants ∧
        ∃ op', plan.Builds unit path method v (.ok op') ∧ op = op'.describeResponses := by
  obtain ⟨-, hvariants, hops⟩ := built_of_run hfilters hresolver hr hbuilt
  have hfound : ∀ op, Entries.find? v (firstOfEachVariant built.operations) = some op →
      ∃ op', plan.Builds unit path method v (.ok op') ∧ op = op'.describeResponses :=
    fun op hop => hops _ (mem_of_mem_firstOfEachVariant (Entries.mem_of_find?_eq_some hop))
  constructor
  · intro hop
    refine ⟨?_, hfound op hop⟩
    have hmem := List.mem_map_of_mem (f := Prod.fst) (Entries.mem_of_find?_eq_some hop)
    rwa [mem_keys_firstOfEachVariant, hvariants herrors] at hmem
  · rintro ⟨hv, op', hbuilds, rfl⟩
    rw [← hvariants herrors, ← mem_keys_firstOfEachVariant] at hv
    -- the variant has an operation, and the unit is built to one only
    cases hfind : Entries.find? v (firstOfEachVariant built.operations) with
    | none => exact absurd hv (Entries.find?_eq_none_iff.1 hfind)
    | some op =>
      obtain ⟨op'', hbuilds', rfl⟩ := hfound op hfind
      cases hbuilds.unique hfilters hbuilds'
      rfl

end Commit

/-! ## One unit

`processUnit` is a chain of cases over the endpoint, the errors of building and the duplicates. It
is unfolded here and nowhere else; `Processed` has the same cases as constructors, with all that is
known in each. -/

/-- What taking up a unit may do. -/
inductive Processed (plan : Plan) (run : Run) (unit : Element) : Outcome → Run → Prop where
  /-- There is no path or no method. -/
  | unnamed (o : Outcome) (h : Endpoint.of? unit = none) (ho : o.isSuccess = false) :
      Processed plan run unit o run
  /-- There is an error; the components of the variants are those from before. -/
  | rejected (path : String) (method : Method) (built : Built) (registry : Registry)
      (errors : List GenerationError) (h : Endpoint.of? unit = some (path, method))
      (hbuilt : (buildVariants plan unit path method
        (variantsForUnit unit plan.categorizers)).run run.registry = some (built, registry))
      (herrors : errors = built.errors ++
        duplicateErrors run.documents path method (built.operations.map Prod.fst))
      (hne : errors ≠ []) :
      Processed plan run unit (.failure path method errors)
        { run with registry := registry.restore run.registry.snapshot }
  | committed (path : String) (method : Method) (built : Built) (registry : Registry)
      (message : String) (h : Endpoint.of? unit = some (path, method))
      (hbuilt : (buildVariants plan unit path method
        (variantsForUnit unit plan.categorizers)).run run.registry = some (built, registry))
      (herrors : built.errors = [])
      (hfree : duplicateErrors run.documents path method (built.operations.map Prod.fst) = []) :
      Processed plan run unit (.success path method message)
        (Run.commitAll { run with registry := registry } unit path
          (firstOfEachVariant built.operations))

/-- The registry stays valid whatever becomes of the unit. -/
theorem Processed.valid {plan : Plan} {run run' : Run} {unit : Element} {o : Outcome}
    (hp : Processed plan run unit o run') (C : Comparison plan.resolver)
    (hfilters : plan.filters = FilterSet.standard)
    (hrefl : C.related run.registry run.registry)
    (h : Valid plan.resolver C.met run.registry) : Valid plan.resolver C.met run'.registry := by
  have hbuilds : ∀ {path method built registry}, (buildVariants plan unit path method
      (variantsForUnit unit plan.categorizers)).run run.registry = some (built, registry) →
        Valid plan.resolver C.met registry ∧ Extends run.registry registry := by
    intro path method built registry hbuilt
    have hagrees := Comparison.Agrees.buildVariants (C := C) hfilters unit path method
      (variantsForUnit unit plan.categorizers)
    obtain ⟨hvalid, hext, -⟩ := hagrees.single (d := plan.depth) hrefl h trivial hbuilt
    exact ⟨hvalid, hext⟩
  cases hp with
  | unnamed => exact h
  -- going back takes the components with it and leaves the memo
  | rejected path method built registry errors _ hbuilt =>
    exact h.rollback (hbuilds hbuilt).1 (hbuilds hbuilt).2
  | committed path method built registry message _ hbuilt =>
    rw [registry_commitAll]
    exact (hbuilds hbuilt).1

/-- What becomes of a unit that was built. -/
def Run.settle (run : Run) (unit : Element) (path : String) (method : Method)
    (x : Built × Registry) : Outcome × Run :=
  let errors := x.1.errors ++
    duplicateErrors run.documents path method (x.1.operations.map Prod.fst)
  if errors ≠ [] then
    (.failure path method errors, { run with registry := x.2.restore run.registry.snapshot })
  else
    let targets := firstOfEachVariant x.1.operations
    (.success path method ("generated for " ++ toString targets.length ++ " documents"),
      Run.commitAll { run with registry := x.2 } unit path targets)

section Unit

variable {plan : Plan} {run run' : Run} {unit : Element} {o : Outcome} {path : String}
variable {method : Method}

/-- Without a duplicate the errors of a unit are those of building it. -/
theorem Run.settle_of_free {x : Built × Registry}
    (hfree : duplicateErrors run.documents path method (x.1.operations.map Prod.fst) = []) :
    run.settle unit path method x =
      if x.1.errors ≠ [] then
        (.failure path method x.1.errors,
          { run with registry := x.2.restore run.registry.snapshot })
      else
        let targets := firstOfEachVariant x.1.operations
        (.success path method ("generated for " ++ toString targets.length ++ " documents"),
          Run.commitAll { run with registry := x.2 } unit path targets) := by
  unfold Run.settle
  rw [hfree, List.append_nil]

/-- Building is the only part that may not return; all else is `Run.settle`. -/
theorem addUnit_eq : addUnit plan run unit path method =
    ((buildVariants plan unit path method (variantsForUnit unit plan.categorizers)).run
      run.registry).map (run.settle unit path method) := by
  unfold addUnit Run.settle
  simp only [Option.bind_eq_bind]
  cases (buildVariants plan unit path method (variantsForUnit unit plan.categorizers)).run
      run.registry with
  | none => rfl
  | some x =>
    simp only [Option.bind_some, Option.map_some]
    split <;> rfl

theorem processUnit_of_endpoint (h : Endpoint.of? unit = some (path, method)) :
    processUnit plan run unit = addUnit plan run unit path method := by
  unfold Endpoint.of? at h
  unfold processUnit
  cases hpath : Endpoint.path unit with
  | error e =>
    simp only [hpath] at h
    cases h
  | ok path' =>
    simp only [hpath] at h ⊢
    cases hmethod : Endpoint.method unit path' with
    | error e =>
      simp only [hmethod] at h
      cases h
    | ok method' =>
      simp only [hmethod] at h ⊢
      cases h
      rfl

/-- The outcome is a failure, and the same one for every plan and run. -/
theorem processUnit_of_no_endpoint (h : Endpoint.of? unit = none) :
    ∃ o, o.isSuccess = false ∧ ∀ plan run, processUnit plan run unit = some (o, run) := by
  unfold Endpoint.of? at h
  unfold processUnit
  cases hpath : Endpoint.path unit with
  | error e => exact ⟨.failure none none [e], rfl, fun _ _ => rfl⟩
  | ok path =>
    simp only [hpath] at h ⊢
    cases hmethod : Endpoint.method unit path with
    | error e => exact ⟨.failure path none [e], rfl, fun _ _ => rfl⟩
    | ok method =>
      simp only [hmethod] at h
      cases h

/-- The cases of `Processed` are all that can happen. -/
theorem processed_of_processUnit (h : processUnit plan run unit = some (o, run')) :
    Processed plan run unit o run' := by
  cases hof : Endpoint.of? unit with
  | none =>
    obtain ⟨o', ho, hprocess⟩ := processUnit_of_no_endpoint hof
    rw [hprocess] at h
    cases h
    exact .unnamed o hof ho
  | some endpoint =>
    obtain ⟨path, method⟩ := endpoint
    rw [processUnit_of_endpoint hof, addUnit_eq] at h
    obtain ⟨⟨built, registry⟩, hbuilt, hsettle⟩ := Option.map_eq_some_iff.1 h
    unfold Run.settle at hsettle
    -- the errors of the building and those of taken endpoints reject together
    by_cases hne : built.errors ++
        duplicateErrors run.documents path method (built.operations.map Prod.fst) ≠ []
    · simp only [if_pos hne] at hsettle
      cases hsettle
      exact .rejected path method built registry _ hof hbuilt rfl hne
    · simp only [if_neg hne] at hsettle
      cases hsettle
      obtain ⟨herrors, hfree⟩ := List.append_eq_nil_iff.1 (not_not.1 hne)
      exact .committed path method built registry _ hof hbuilt herrors hfree

end Unit

/-! ## Several units

A run over a list of units, taken apart at its first unit or anywhere else. -/

section Units

variable {plan : Plan} {run last : Run} {outcomes : List Outcome}

/-- A run over units is a run over the first and one over the others. -/
theorem processUnits_cons {unit : Element} {rest : List Element} :
    processUnits plan (unit :: rest) run = some (outcomes, last) ↔
      ∃ o next later, processUnit plan run unit = some (o, next) ∧
        processUnits plan rest next = some (later, last) ∧ outcomes = o :: later := by
  constructor
  · intro h
    obtain ⟨⟨o, next⟩, hunit, h⟩ := Option.bind_eq_some_iff.1 h
    obtain ⟨⟨later, last⟩, hrest, hreturn⟩ := Option.bind_eq_some_iff.1 h
    cases hreturn
    exact ⟨o, next, later, hunit, hrest, rfl⟩
  · rintro ⟨o, next, later, hunit, hrest, rfl⟩
    simp only [processUnits, hunit, Option.bind_eq_bind, Option.bind_some, hrest]
    rfl

theorem processUnits_append {units more : List Element} :
    processUnits plan (units ++ more) run = some (outcomes, last) ↔
      ∃ before middle after, processUnits plan units run = some (before, middle) ∧
        processUnits plan more middle = some (after, last) ∧ outcomes = before ++ after := by
  induction units generalizing run outcomes with
  | nil =>
    constructor
    · exact fun h => ⟨[], run, outcomes, rfl, h, rfl⟩
    · rintro ⟨before, middle, after, h, hmore, rfl⟩
      cases h
      exact hmore
  | cons unit rest ih =>
    simp only [List.cons_append, processUnits_cons, ih]
    constructor
    · rintro ⟨o, next, later, hunit, ⟨before, middle, after, hrest, hmore, rfl⟩, rfl⟩
      exact ⟨o :: before, middle, after, ⟨o, next, before, hunit, hrest, rfl⟩, hmore, rfl⟩
    · rintro ⟨_, middle, after, ⟨o, next, before, hunit, hrest, rfl⟩, hmore, rfl⟩
      exact ⟨o, next, before ++ after, hunit, ⟨before, middle, after, hrest, hmore, rfl⟩, rfl⟩

/-- A run keeps what each of its units keeps. The history holds the units that were taken up, with
their outcomes. -/
theorem holds_of_processUnits (holds : List (Element × Outcome) → Run → Prop)
    (hstep : ∀ {history run unit o next}, holds history run → Processed plan run unit o next →
      holds (history ++ [(unit, o)]) next)
    {units : List Element} (h : holds [] run)
    (hrun : processUnits plan units run = some (outcomes, last)) :
    holds (units.zip outcomes) last := by
  -- the units in front are any history, as it grows along the induction
  suffices hall : ∀ history, holds history run → holds (history ++ units.zip outcomes) last from
    hall [] h
  clear h
  induction units generalizing run outcomes with
  | nil =>
    intro history h
    cases hrun
    rw [List.zip_nil_left, List.append_nil]
    exact h
  | cons unit rest ih =>
    intro history h
    obtain ⟨o, next, later, hunit, hrest, rfl⟩ := processUnits_cons.1 hrun
    have hlast := ih hrest _ (hstep h (processed_of_processUnit hunit))
    rw [List.append_assoc] at hlast
    exact hlast

/-- Each unit has one outcome. -/
theorem length_outcomes {units : List Element}
    (h : processUnits plan units run = some (outcomes, last)) : outcomes.length = units.length := by
  induction units generalizing run outcomes with
  | nil =>
    cases h
    rfl
  | cons unit rest ih =>
    obtain ⟨o, next, later, -, hrest, rfl⟩ := processUnits_cons.1 h
    rw [List.length_cons, List.length_cons, ih hrest]

end Units

end EndpointDocs
