import EndpointDocs.Proofs.Generation.Returning

/-!
# Outcomes and documents

A unit is taken up with success if it has a path and a method, can be built for each of its
variants, and no unit before it was taken up with the same path and method (`Plan.Accepts`). The
documents hold what was taken up with success, and nothing else (`Corresponds`).

The check for a duplicate looks into the document of every variant. It is enough to look into the
default one, which lists all successful units: this and the contents of the documents are what the
run keeps (`RunHolds`).
-/

namespace EndpointDocs

open Registry Resolving

/-! ## The statement

A unit is taken up or not as a whole: it has one outcome for all of its variants. What a success
says of documents is the subject of the structure below, field by field. -/

/-- The paths and methods of a document, in order. -/
def Document.endpoints (d : Document) : List (String × Method) :=
  d.paths.entries.flatMap fun p => p.2.keys.map fun method => (p.1, method)

/-- The units whose outcome is a success. -/
def successful (units : List Element) (outcomes : List Outcome) : List Element :=
  ((units.zip outcomes).filter fun p => p.2.isSuccess).map Prod.fst

/-- The unit has a path and a method that no earlier success has, and is built for each of its
variants. -/
def Plan.Accepts (plan : Plan) (earlier : List Outcome) (unit : Element) : Prop :=
  ∃ path method, Endpoint.of? unit = some (path, method) ∧
    (∀ v ∈ variantsForUnit unit plan.categorizers,
      ∃ op, plan.Builds unit path method v (.ok op)) ∧
    ∀ o ∈ earlier, o.isSuccess = true → ¬ (o.path = some path ∧ o.method = some method)

/-- The outcomes and the documents are those of the units. -/
structure Corresponds (plan : Plan) (units : List Element) (outcomes : List Outcome)
    (documents : Documents) : Prop where
  /-- There is one outcome for each unit. -/
  length : outcomes.length = units.length
  /-- A success names the path and the method of its unit. -/
  named : ∀ (i : Nat) unit (o : Outcome), units[i]? = some unit → outcomes[i]? = some o →
    o.isSuccess = true →
    ∃ path method, Endpoint.of? unit = some (path, method) ∧ o.path = some path ∧
      o.method = some method
  /-- The successes are the units that are accepted behind those before. -/
  success : ∀ i unit o, units[i]? = some unit → outcomes[i]? = some o →
    (o.isSuccess = true ↔ plan.Accepts (outcomes.take i) unit)
  /-- There is a document for each variant of a successful unit. -/
  document : ∀ v, (∃ d, documents.get? v = some d) ↔
    ∃ unit ∈ successful units outcomes, v ∈ variantsForUnit unit plan.categorizers
  /-- A document holds the operations that the successful units of its variant are built to. -/
  operation : ∀ v d, documents.get? v = some d → ∀ path method op,
    d.operation? path method = some op ↔
      ∃ unit ∈ successful units outcomes, v ∈ variantsForUnit unit plan.categorizers ∧
        Endpoint.of? unit = some (path, method) ∧
        ∃ built, plan.Builds unit path method v (.ok built) ∧ op = built.describeResponses
  /-- It lists each of these units once. -/
  endpoints : ∀ v d, documents.get? v = some d →
    (d.endpoints.map some).Perm (((successful units outcomes).filter fun unit =>
      v ∈ variantsForUnit unit plan.categorizers).map Endpoint.of?)
  /-- The default document lists as many as there are successes. -/
  default : ((documents.get? .default).map fun d => d.endpoints.length).getD 0 =
    (outcomes.filter Outcome.isSuccess).length

/-! ## A run

The state between two units. `RunHolds` is what `Corresponds` becomes when the documents are still
being filled: the same conditions over the units so far, each with its outcome. That every type
already in the registry is one of a well-named tree is needed to know what a unit is built to,
whatever was built before it. -/

/-- The operation that a document of the run holds for a variant. -/
def Run.operation? (run : Run) (v : Variant) (path : String) (method : Method) :
    Option Operation :=
  (run.documents.get? v).bind (·.operation? path method)

/-- What a run holds behind the units with the given outcomes. -/
structure RunHolds (plan : Plan) (history : List (Element × Outcome)) (run : Run) : Prop where
  valid : Valid plan.resolver TypeExpr.WellNamed run.registry
  accepted : ∀ i p, history[i]? = some p →
    (p.2.isSuccess = true ↔ plan.Accepts ((history.take i).map Prod.snd) p.1)
  success : ∀ p ∈ history, p.2.isSuccess = true →
    ∃ path method, Endpoint.of? p.1 = some (path, method) ∧ p.2.path = some path ∧
      p.2.method = some method ∧
      ∀ v ∈ variantsForUnit p.1 plan.categorizers,
        ∃ op, plan.Builds p.1 path method v (.ok op)
  nodup : ((history.filter fun p => p.2.isSuccess).map fun p => Endpoint.of? p.1).Nodup
  document : ∀ v, (∃ d, run.documents.get? v = some d) ↔
    ∃ p ∈ history, p.2.isSuccess = true ∧ v ∈ variantsForUnit p.1 plan.categorizers
  operation : ∀ v path method op, run.operation? v path method = some op ↔
    ∃ p ∈ history, p.2.isSuccess = true ∧ v ∈ variantsForUnit p.1 plan.categorizers ∧
      Endpoint.of? p.1 = some (path, method) ∧
      ∃ built, plan.Builds p.1 path method v (.ok built) ∧ op = built.describeResponses

variable {plan : Plan} {run run' : Run} {unit : Element} {o : Outcome}
variable {history : List (Element × Outcome)} {path : String} {method : Method} {v : Variant}

theorem RunHolds.start : RunHolds plan [] {} where
  valid := .empty
  accepted _ _ hp := nomatch hp
  success _ hp := nomatch hp
  nodup := List.nodup_nil
  document _ := ⟨fun ⟨_, hd⟩ => (nomatch hd), fun ⟨_, hp, _⟩ => (nomatch hp)⟩
  operation _ _ _ _ := ⟨fun h => (nomatch h), fun ⟨_, hp, _⟩ => (nomatch hp)⟩

/-- Every unit belongs to the default document. -/
theorem default_mem_variantsForUnit (unit : Element) (categorizers : List String) :
    Variant.default ∈ variantsForUnit unit categorizers := List.mem_cons_self

/-- Path and method are taken in a variant if they are taken in the default document. -/
theorem RunHolds.isTaken_iff (h : RunHolds plan history run) :
    isTaken run.documents path method v = true ↔
      ∃ p ∈ history, p.2.isSuccess = true ∧ v ∈ variantsForUnit p.1 plan.categorizers ∧
        Endpoint.of? p.1 = some (path, method) := by
  have htaken : isTaken run.documents path method v = true ↔
      ∃ op, run.operation? v path method = some op := Option.isSome_iff_exists
  rw [htaken]
  constructor
  · rintro ⟨op, hop⟩
    obtain ⟨p, hp, ho, hv, hof, -⟩ := (h.operation v path method op).1 hop
    exact ⟨p, hp, ho, hv, hof⟩
  · rintro ⟨p, hp, ho, hv, hof⟩
    obtain ⟨path', method', hof', -, -, hbuilds⟩ := h.success p hp ho
    -- the variant has the operation that the unit built for it
    rw [hof] at hof'
    cases hof'
    obtain ⟨op, hop⟩ := hbuilds v hv
    exact ⟨op.describeResponses, (h.operation v path method _).2 ⟨p, hp, ho, hv, hof, op, hop, rfl⟩⟩

/-- One error for the first variant that is taken, and none if there is no such. -/
theorem duplicateErrors_eq_nil {documents : Documents} {variants : List Variant} :
    duplicateErrors documents path method variants = [] ↔
      ∀ v ∈ variants, isTaken documents path method v = false := by
  unfold duplicateErrors
  rw [Option.toList_eq_nil_iff, Option.map_eq_none_iff, List.find?_eq_none]
  simp only [Bool.not_eq_true]

/-- A unit with a path and a method is free of duplicates in its documents exactly if no success
before it has the two. -/
theorem RunHolds.free_iff (h : RunHolds plan history run) {variants : List Variant}
    (hv : variants = variantsForUnit unit plan.categorizers) :
    duplicateErrors run.documents path method variants = [] ↔
      ∀ o ∈ history.map Prod.snd, o.isSuccess = true →
        ¬ (o.path = some path ∧ o.method = some method) := by
  rw [duplicateErrors_eq_nil]
  constructor
  · intro hfree o ho hsuccess hsame
    obtain ⟨p, hp, rfl⟩ := List.mem_map.1 ho
    obtain ⟨path', method', hof, hpath, hmethod, -⟩ := h.success p hp hsuccess
    rw [hsame.1] at hpath
    rw [hsame.2] at hmethod
    cases hpath
    cases hmethod
    -- whatever the variants of the two units, both are in the default document
    have htaken := (h.isTaken_iff (v := .default)).2
      ⟨p, hp, hsuccess, default_mem_variantsForUnit _ _, hof⟩
    rw [hfree .default (hv ▸ default_mem_variantsForUnit _ _)] at htaken
    cases htaken
  · intro hfree v hv
    rw [← Bool.not_eq_true]
    intro htaken
    obtain ⟨p, hp, hsuccess, -, hof⟩ := h.isTaken_iff.1 htaken
    obtain ⟨path', method', hof', hpath, hmethod, -⟩ := h.success p hp hsuccess
    rw [hof] at hof'
    cases hof'
    exact hfree p.2 (List.mem_map_of_mem hp) hsuccess ⟨hpath, hmethod⟩

/-! ## One unit

A unit behind those so far is either no success, and leaves the documents alone
(`RunHolds.unchanged`), or it is built without errors for all of its variants and not a duplicate in
any of them (`RunHolds.committed`). -/

/-- A success is one of those before or the last. -/
theorem exists_success_append {P : Element × Outcome → Prop} :
    (∃ p ∈ history ++ [(unit, o)], p.2.isSuccess = true ∧ P p) ↔
      (∃ p ∈ history, p.2.isSuccess = true ∧ P p) ∨ o.isSuccess = true ∧ P (unit, o) := by
  simp only [List.mem_append, List.mem_singleton, or_and_right, exists_or, exists_eq_left]

theorem RunHolds.accepted_append (h : RunHolds plan history run)
    (haccepts : o.isSuccess = true ↔ plan.Accepts (history.map Prod.snd) unit) :
    ∀ i p, (history ++ [(unit, o)])[i]? = some p → (p.2.isSuccess = true ↔
      plan.Accepts (((history ++ [(unit, o)]).take i).map Prod.snd) p.1) := by
  intro i p hp
  by_cases hi : i < history.length
  -- what a unit before was judged by are the outcomes in front of it, and these are the same
  · rw [List.getElem?_append_left hi] at hp
    rw [List.take_append_of_le_length (le_of_lt hi)]
    exact h.accepted i p hp
  · have hlast : i = history.length := by
      have hlt := (List.getElem?_eq_some_iff.1 hp).1
      rw [List.length_append, List.length_singleton] at hlt
      omega
    -- the last unit is judged by all of them
    rw [hlast, List.getElem?_append_right (le_refl _), Nat.sub_self] at hp
    cases hp
    rw [hlast, List.take_left]
    exact haccepts

/-- Behind a unit that is no success all is as before. -/
theorem RunHolds.unchanged (h : RunHolds plan history run) (ho : o.isSuccess = false)
    (hrejected : ¬ plan.Accepts (history.map Prod.snd) unit)
    (hvalid : Valid plan.resolver TypeExpr.WellNamed run'.registry)
    (hdocuments : run'.documents = run.documents) :
    RunHolds plan (history ++ [(unit, o)]) run' := by
  -- the history has no success more
  have hmem : ∀ {P : Element × Outcome → Prop},
      (∃ p ∈ history ++ [(unit, o)], p.2.isSuccess = true ∧ P p) ↔
        ∃ p ∈ history, p.2.isSuccess = true ∧ P p := by
    intro P
    simp only [exists_success_append, ho, Bool.false_eq_true, false_and, or_false]
  have haccepts : o.isSuccess = true ↔ plan.Accepts (history.map Prod.snd) unit := by
    rw [ho]
    exact iff_of_false Bool.false_ne_true hrejected
  refine ⟨hvalid, h.accepted_append haccepts, fun p hp hsuccess => ?_, ?_, fun v => ?_,
    fun v path method op => ?_⟩
  · rcases List.mem_append.1 hp with hp | hp
    · exact h.success p hp hsuccess
    · rw [List.mem_singleton.1 hp, ho] at hsuccess
      cases hsuccess
  · rw [List.filter_append, List.filter_singleton, ho]
    simpa using h.nodup
  · rw [hmem, hdocuments]
    exact h.document v
  · rw [hmem, Run.operation?, hdocuments]
    exact h.operation v path method op

/-- A document that gets an operation holds it along with what it held. -/
theorem operation?_commitAll_iff {targets : List (Variant × Operation)}
    (hnodup : (targets.map Prod.fst).Nodup) (hmethod : ∀ p ∈ targets, p.2.method = method)
    (hfree : ∀ p ∈ targets, run.operation? p.1 path method = none) {other : String}
    {method' : Method} {op : Operation} :
    (run.commitAll unit path targets).operation? v other method' = some op ↔
      run.operation? v other method' = some op ∨
        (other = path ∧ method' = method) ∧ Entries.find? v targets = some op := by
  unfold Run.operation? at hfree ⊢
  rw [get?_documents_commitAll hnodup]
  cases hfind : Entries.find? v targets with
  | none => simp
  | some op' =>
    have hmem := Entries.mem_of_find?_eq_some hfind
    obtain rfl : op'.method = method := hmethod _ hmem
    -- a document that is new holds nothing
    have hheld : ((run.documents.get? v).getD {}).operation? other method' =
        (run.documents.get? v).bind (·.operation? other method') := by
      cases run.documents.get? v with
      | none => rfl
      | some d => rfl
    simp only [Option.bind_some, Document.operation?_addOperation, hheld]
    by_cases hsame : other = path ∧ method' = op'.method
    · obtain ⟨rfl, rfl⟩ := hsame
      simp [hfree _ hmem]
    · simp [hsame]

section Step

variable (hfilters : plan.filters = FilterSet.standard) (hresolver : plan.resolver.WellNamed)

include hfilters hresolver

section Committed

variable {built : Built} {registry : Registry} (h : RunHolds plan history run)
variable (hbuilt : (buildVariants plan unit path method
  (variantsForUnit unit plan.categorizers)).run run.registry = some (built, registry))
variable (herrors : built.errors = [])

include h hbuilt herrors

variable (hfree : duplicateErrors run.documents path method (built.operations.map Prod.fst) = [])

include hfree

/-- The documents of a committed unit hold what they held and the operation of the unit. -/
theorem RunHolds.operation?_committed {other : String} {method' : Method} {op : Operation} :
    (Run.commitAll { run with registry := registry } unit path
      (firstOfEachVariant built.operations)).operation? v other method' = some op ↔
        run.operation? v other method' = some op ∨ (other = path ∧ method' = method) ∧
          v ∈ variantsForUnit unit plan.categorizers ∧
            ∃ op', plan.Builds unit path method v (.ok op') ∧ op = op'.describeResponses := by
  have hagrees := Comparison.Agrees.buildVariants (C := .any hresolver) hfilters unit path method
    (variantsForUnit unit plan.categorizers)
  obtain ⟨-, -, hsketch⟩ := hagrees.single trivial h.valid trivial hbuilt
  rw [← find?_firstOfEachVariant hfilters hresolver h.valid hbuilt herrors]
  refine operation?_commitAll_iff nodup_firstOfEachVariant (fun p hp => ?_) fun p hp => ?_
  -- what is built for a variant has the method of the unit
  · exact (hsketch p (mem_of_mem_firstOfEachVariant hp)).same.2
  · have hmem := List.mem_map_of_mem (f := Prod.fst) (mem_of_mem_firstOfEachVariant hp)
    have huntaken := duplicateErrors_eq_nil.1 hfree _ hmem
    exact Option.isNone_iff_eq_none.1 (Option.isSome_eq_false_iff.1 huntaken)

/-- A committed unit is taken up in the documents of its variants. -/
theorem RunHolds.committed (hof : Endpoint.of? unit = some (path, method)) (message : String) :
    RunHolds plan (history ++ [(unit, .success path method message)])
      (Run.commitAll { run with registry := registry } unit path
        (firstOfEachVariant built.operations)) := by
  have hvalid := (Processed.committed path method built registry message hof hbuilt herrors
    hfree).valid (.any hresolver) hfilters trivial h.valid
  obtain ⟨hbuilds, hvariants, -⟩ := built_of_run hfilters hresolver h.valid hbuilt
  -- built for all variants, and free of duplicates: the two halves of being accepted
  have hall := hbuilds.1 herrors
  have hnew := (h.free_iff (hvariants herrors)).1 hfree
  have hsuccess : (Outcome.success path method message).isSuccess = true := rfl
  have haccepts : plan.Accepts (history.map Prod.snd) unit := ⟨path, method, hof, hall, hnew⟩
  -- the endpoint of the unit is new among those of the successes
  refine ⟨hvalid, h.accepted_append (iff_of_true hsuccess haccepts), fun p hp hs => ?_, ?_,
    fun v => ?_, fun v other method' op => ?_⟩
  · rcases List.mem_append.1 hp with hp | hp
    · exact h.success p hp hs
    · rw [List.mem_singleton.1 hp]
      exact ⟨path, method, hof, rfl, rfl, hall⟩
  · rw [List.filter_append, List.filter_singleton, hsuccess, List.map_append, cond_true,
      List.map_singleton, List.nodup_append_comm]
    -- a success with this endpoint would have made the unit a duplicate
    refine List.nodup_cons.2 ⟨fun hmem => ?_, h.nodup⟩
    obtain ⟨p, hp, hsame⟩ := List.mem_map.1 hmem
    obtain ⟨hp, hs⟩ := List.mem_filter.1 hp
    obtain ⟨path', method', hof', hpath, hmethod, -⟩ := h.success p hp hs
    rw [hsame, hof] at hof'
    cases hof'
    exact hnew p.2 (List.mem_map_of_mem hp) hs ⟨hpath, hmethod⟩
  · rw [exists_success_append, ← h.document, get?_documents_commitAll nodup_firstOfEachVariant,
      ← hvariants herrors, ← mem_keys_firstOfEachVariant]
    cases hfind : Entries.find? v (firstOfEachVariant built.operations) with
    | none => simp [Entries.find?_eq_none_iff.1 hfind]
    | some op =>
      have hmem := List.mem_map_of_mem (f := Prod.fst) (Entries.mem_of_find?_eq_some hfind)
      -- the variant is one of those of the unit, whether it had a document before or not
      simp only [hsuccess, hmem, and_self, or_true, iff_true]
      exact ⟨_, rfl⟩
  · rw [h.operation?_committed hfilters hresolver hbuilt herrors hfree, exists_success_append,
      h.operation, hof]
    refine or_congr_right ⟨?_, ?_⟩
    · rintro ⟨⟨rfl, rfl⟩, hv, hbuilds⟩
      exact ⟨hsuccess, hv, rfl, hbuilds⟩
    · rintro ⟨-, hv, hsame, hbuilds⟩
      cases hsame
      exact ⟨⟨rfl, rfl⟩, hv, hbuilds⟩

end Committed

/-- Each of the three ways in which a unit is processed keeps what the run holds. -/
theorem RunHolds.processed (h : RunHolds plan history run)
    (hp : Processed plan run unit o run') : RunHolds plan (history ++ [(unit, o)]) run' := by
  have hvalid := hp.valid (.any hresolver) hfilters trivial h.valid
  cases hp with
  | unnamed _ hof ho =>
    refine h.unchanged ho ?_ hvalid rfl
    rintro ⟨path, method, hof', -⟩
    rw [hof] at hof'
    cases hof'
  | rejected path method built registry errors hof hbuilt herrors hne =>
    refine h.unchanged rfl ?_ hvalid rfl
    rintro ⟨path', method', hof', hall, hnew⟩
    rw [hof] at hof'
    cases hof'
    -- were it accepted, there would be no error, neither of building it nor of a duplicate
    obtain ⟨hbuilds, hvariants, -⟩ := built_of_run hfilters hresolver h.valid hbuilt
    have hnil := hbuilds.2 hall
    rw [hnil, (h.free_iff (hvariants hnil)).2 hnew] at herrors
    exact hne herrors
  | committed path method built registry message hof hbuilt herrors hfree =>
    exact h.committed hfilters hresolver hbuilt herrors hfree hof message

/-- By induction over the units, from the empty run on. -/
theorem runHolds_of_processUnits {units : List Element} {outcomes : List Outcome}
    (h : processUnits plan units {} = some (outcomes, run)) :
    RunHolds plan (units.zip outcomes) run :=
  holds_of_processUnits (RunHolds plan) (fun h hp => h.processed hfilters hresolver hp) .start h

end Step

/-! ## The contents of a document

From what a run holds to lists that can be counted. A document keeps its operations under path and
method, so its endpoints are listed without repetition, and so are those of the successes: the two
lists are the same up to their order. -/

/-- An endpoint is listed if there is an operation at it. -/
theorem Document.mem_endpoints {d : Document} :
    (path, method) ∈ d.endpoints ↔ ∃ op, d.operation? path method = some op := by
  have hitem : ∀ item : PathItem, (path, method) ∈ (item.keys.map fun method => (path, method)) ↔
      ∃ op, item.get? method = some op := by
    intro item
    rw [← KeyMap.mem_keys_iff]
    simp
  unfold endpoints operation?
  rw [List.mem_flatMap]
  constructor
  · rintro ⟨⟨other, item⟩, hp, hmem⟩
    -- each method is listed behind the path that it belongs to
    obtain rfl : other = path := by
      obtain ⟨_, -, hsame⟩ := List.mem_map.1 hmem
      exact (Prod.mk.inj hsame).1
    rw [KeyMap.mem_entries_iff.1 hp, Option.bind_some]
    exact (hitem item).1 hmem
  · rintro ⟨op, hop⟩
    obtain ⟨item, hpath, hop⟩ := Option.bind_eq_some_iff.1 hop
    exact ⟨(path, item), KeyMap.mem_entries_iff.2 hpath, (hitem item).2 ⟨op, hop⟩⟩

/-- Paths are keys of the document and methods are keys of a path. -/
theorem Document.nodup_endpoints (d : Document) : d.endpoints.Nodup := by
  refine List.nodup_flatMap.2 ⟨fun p _ => ?_, ?_⟩
  · exact (KeyMap.nodup_keys p.2).map fun _ _ h => (Prod.mk.inj h).2
  · -- endpoints of different paths are different
    refine (List.pairwise_map.1 (KeyMap.nodup_keys d.paths)).imp fun {p q} hne => ?_
    intro endpoint hp hq
    obtain ⟨_, -, rfl⟩ := List.mem_map.1 hp
    obtain ⟨_, -, hsame⟩ := List.mem_map.1 hq
    exact hne (Prod.mk.inj hsame).1.symm

theorem exists_successful {units : List Element} {outcomes : List Outcome} {P : Element → Prop} :
    (∃ unit ∈ successful units outcomes, P unit) ↔
      ∃ p ∈ units.zip outcomes, p.2.isSuccess = true ∧ P p.1 := by
  unfold successful
  constructor
  · rintro ⟨unit, hunit, hP⟩
    obtain ⟨p, hp, rfl⟩ := List.mem_map.1 hunit
    exact ⟨p, (List.mem_filter.1 hp).1, (List.mem_filter.1 hp).2, hP⟩
  · rintro ⟨p, hp, hsuccess, hP⟩
    exact ⟨p.1, List.mem_map_of_mem (List.mem_filter.2 ⟨hp, hsuccess⟩), hP⟩

/-- Units and outcomes are paired one by one, so none is cut off. -/
theorem length_successful {units : List Element} {outcomes : List Outcome}
    (h : outcomes.length = units.length) :
    (successful units outcomes).length = (outcomes.filter Outcome.isSuccess).length := by
  have hsnd : (units.zip outcomes).map Prod.snd = outcomes := List.map_snd_zip (le_of_eq h)
  unfold successful
  rw [← hsnd, List.filter_map, List.length_map, List.length_map, hsnd]
  rfl

section Contents

variable {units : List Element} {outcomes : List Outcome}

/-- The endpoints of a document are those of the successful units of its variant. -/
theorem RunHolds.perm_endpoints (h : RunHolds plan (units.zip outcomes) run) {d : Document}
    (hd : run.documents.get? v = some d) :
    (d.endpoints.map some).Perm (((successful units outcomes).filter fun unit =>
      v ∈ variantsForUnit unit plan.categorizers).map Endpoint.of?) := by
  have hnodup : ((successful units outcomes).map Endpoint.of?).Nodup := by
    have hall := h.nodup
    unfold successful
    rw [List.map_map]
    exact hall
  have hsome : (d.endpoints.map some).Nodup := d.nodup_endpoints.map fun _ _ => Option.some.inj
  -- no entry is repeated on either side, so it is enough that the members are the same
  rw [List.perm_ext_iff_of_nodup hsome (hnodup.sublist (List.filter_sublist.map _))]
  have hmem : ∀ path method, (path, method) ∈ d.endpoints ↔ ∃ unit ∈ successful units outcomes,
      v ∈ variantsForUnit unit plan.categorizers ∧ Endpoint.of? unit = some (path, method) := by
    intro path method
    have htaken : (∃ op, d.operation? path method = some op) ↔
        isTaken run.documents path method v = true := by
      unfold isTaken
      rw [hd, Option.bind_some]
      exact Option.isSome_iff_exists.symm
    rw [Document.mem_endpoints, htaken, h.isTaken_iff, exists_successful]
  intro endpoint
  simp only [List.mem_map, List.mem_filter, decide_eq_true_eq, Prod.exists, hmem]
  constructor
  · rintro ⟨path, method, ⟨unit, hunit, hv, hof⟩, rfl⟩
    exact ⟨unit, ⟨hunit, hv⟩, hof⟩
  · rintro ⟨unit, ⟨hunit, hv⟩, rfl⟩
    obtain ⟨p, hp, hsuccess, rfl⟩ := exists_successful.1 ⟨unit, hunit, rfl⟩
    obtain ⟨path, method, hof, -⟩ := h.success p hp hsuccess
    exact ⟨path, method, ⟨_, hunit, hv, hof⟩, hof.symm⟩

/-- The default document lists one operation for each success. -/
theorem RunHolds.length_default (h : RunHolds plan (units.zip outcomes) run)
    (hlength : outcomes.length = units.length) :
    ((run.documents.get? .default).map fun d => d.endpoints.length).getD 0 =
      (outcomes.filter Outcome.isSuccess).length := by
  rw [← length_successful hlength]
  cases hd : run.documents.get? .default with
  | none =>
    -- without a default document there is no success, as each success is in it
    have hnone : ¬ ∃ unit ∈ successful units outcomes,
        Variant.default ∈ variantsForUnit unit plan.categorizers := by
      rw [exists_successful, ← h.document, hd]
      simp
    symm
    refine List.length_eq_zero_iff.2 (List.eq_nil_iff_forall_not_mem.2 fun unit hunit => ?_)
    exact hnone ⟨unit, hunit, default_mem_variantsForUnit unit _⟩
  | some d =>
    -- all successes belong to the default variant, so no unit is left out of the count
    have hall : ((successful units outcomes).filter fun unit =>
        Variant.default ∈ variantsForUnit unit plan.categorizers) = successful units outcomes :=
      List.filter_eq_self.2 fun unit _ => decide_eq_true (default_mem_variantsForUnit unit _)
    have hperm := (h.perm_endpoints hd).length_eq
    rw [hall, List.length_map, List.length_map] at hperm
    exact hperm

/-- What a run holds at its end is what its documents are finished with. -/
theorem RunHolds.corresponds (h : RunHolds plan (units.zip outcomes) run)
    (hlength : outcomes.length = units.length) :
    Corresponds plan units outcomes (run.documents.mapValues (plan.finished run)) := by
  have hzip : ∀ {i : Nat} {unit o}, units[i]? = some unit → outcomes[i]? = some o →
      (units.zip outcomes)[i]? = some (unit, o) := fun hunit ho =>
    List.getElem?_zip_eq_some.2 ⟨hunit, ho⟩
  refine ⟨hlength, fun i unit o hunit ho hs => ?_, fun i unit o hunit ho => ?_, fun v => ?_,
    fun v d' hd' => ?_, fun v d' hd' => ?_, ?_⟩
  · obtain ⟨path, method, hof, hpath, hmethod, -⟩ :=
      h.success _ (List.mem_of_getElem? (hzip hunit ho)) hs
    exact ⟨path, method, hof, hpath, hmethod⟩
  · have hsnd : ((units.zip outcomes).take i).map Prod.snd = outcomes.take i := by
      rw [List.map_take, List.map_snd_zip (le_of_eq hlength)]
    rw [← hsnd]
    exact h.accepted i (unit, o) (hzip hunit ho)
  · rw [exists_successful, ← h.document, KeyMap.get?_mapValues]
    simp
  · rw [KeyMap.get?_mapValues] at hd'
    obtain ⟨d, hd, rfl⟩ := Option.map_eq_some_iff.1 hd'
    intro path method op
    have hheld : (plan.finished run v d).operation? path method = run.operation? v path method := by
      unfold Run.operation?
      rw [hd]
      rfl
    rw [hheld, exists_successful]
    exact h.operation v path method op
  · rw [KeyMap.get?_mapValues] at hd'
    obtain ⟨d, hd, rfl⟩ := Option.map_eq_some_iff.1 hd'
    -- finishing keeps the paths
    have hsame : (plan.finished run v d).endpoints = d.endpoints := rfl
    rw [hsame]
    exact h.perm_endpoints hd
  · rw [← h.length_default hlength, KeyMap.get?_mapValues, Option.map_map]
    rfl

end Contents

/-- Outcomes and documents of a run correspond to its units. -/
theorem corresponds_of_generate {settings : Settings} {resolver : Resolver} {depth : Nat}
    {config : Option Element} {annotations : Element} {result : GenerationResult}
    (hresolver : resolver.WellNamed) (hunits : annotations.operations ≠ [])
    (hrun : (Plan.ofConfig .standard settings resolver depth config).generate annotations =
      some result) :
    Corresponds (Plan.ofConfig .standard settings resolver depth config) annotations.operations
      result.outcomes result.documents := by
  obtain ⟨outcomes, run, hprocess, rfl⟩ := exists_run_of_generate rfl hunits hrun
  have hholds := runHolds_of_processUnits rfl hresolver hprocess
  exact hholds.corresponds (length_outcomes hprocess)

theorem corresponds_staff : ∃ result, staffPlan.generate staff = some result ∧
    Corresponds staffPlan staff.operations result.outcomes result.documents := by
  obtain ⟨result, hrun⟩ := generate_staff
  have hunits : staff.operations ≠ [] := operations_staff ▸ List.cons_ne_nil _ _
  exact ⟨result, hrun, corresponds_of_generate wellNamed_people hunits hrun⟩

end EndpointDocs
