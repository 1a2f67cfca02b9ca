import EndpointDocs.Proofs.Generation.Configuration
import EndpointDocs.Proofs.Generation.Correspondence
import EndpointDocs.Proofs.Generation.Independence
import EndpointDocs.Proofs.Generation.References
import EndpointDocs.Proofs.Generation.WellFormed
import EndpointDocs.Proofs.Operation.Layering
import EndpointDocs.Proofs.Tags.Uses

/-!
# What the components of a document are used for

The types that the tags of a unit name are there in its operation, and a unit that is rejected takes
back what it brought. So the components of a document are used from its operations, but for those
that the annotations of the configuration name (`used_of_generate`): these are resolved before it is
known whether an operation lacks them, and a component that none of them lacks stays behind
(`component_without_use`).
-/

namespace EndpointDocs

open Schema Registry Resolving

/-! ## The configuration

The two sides of a unit differ in what is known of their types. What a tag of the unit names is in
the operation, as its tags go there; what the configuration names may go nowhere. So the names of
the configuration are kept as roots of their own. -/

/-- An annotation of the configuration for the variant names a type about the component. -/
def Plan.ConfigNames (plan : Plan) (v : Variant) (key : String) : Prop :=
  ∃ config path, plan.operationConfig = some config ∧
    Tags.NamedBy (Tags.typedTags path (Tags.annotationsFor config v)) key

/-- What each step supplies, all steps together supply. -/
theorem Registry.Supplies.chain {α ι : Type} {items : List ι} {step : ι → Step α}
    {resolver : Resolver} {v : Variant} {names : String → Prop} {a b : α} {r s : Registry}
    (h : ∀ i, ∀ {a b r s}, Valid resolver (fun _ => True) r →
      (step i a).run r = some ((b, []), s) → Supplies resolver v names r s)
    (hr : Valid resolver (fun _ => True) r)
    (hrun : (Step.chain (items.map step) a).run r = some ((b, []), s)) :
    Supplies resolver v names r s :=
  Step.holds_of_chain (fun _ _ q => Supplies resolver v names r q)
    (fun hq hfirst => hq.trans (h _ hq.valid hfirst)) [] (.refl hr) hrun

section Build

variable {plan : Plan} {unit config : Element} {path : String} {method : Method} {v w : Variant}
variable {op op' : Operation} {r s : Registry}
variable (hfilters : plan.filters = FilterSet.standard)
variable (hdistinct : plan.resolver.DistinctFields)
variable (hr : Valid plan.resolver (fun _ => True) r)

include hdistinct hr

/-- What the annotations of the configuration name is supplied, whether it is needed or not. -/
theorem supplies_fillOperation {item item' : PathItem} {annotations : Element}
    (hrun : (Tags.fillOperation (plan.scope path v) FilterSet.standard.operation annotations method
      item).run r = some ((item', []), s)) :
    Supplies plan.resolver v (Tags.NamedBy (Tags.typedTags path annotations)) r s := by
  unfold Tags.fillOperation at hrun
  cases hop : item.get? method with
  | none =>
    rw [hop] at hrun
    obtain ⟨-, rfl⟩ := run_pure_eq_some.1 hrun
    exact .refl hr
  | some op =>
    rw [hop] at hrun
    obtain ⟨⟨defaults, found⟩, q, hdefaults, hrest⟩ := run_bind_eq_some.1 hrun
    -- whichever way the defaults are used, the registry is the one behind reading them
    have hreturn : found = [] ∧ q = s := by
      dsimp only at hrest
      split at hrest
      · obtain ⟨hsame, hq⟩ := run_pure_eq_some.1 hrest
        exact ⟨(Prod.mk.inj hsame).2, hq⟩
      · obtain ⟨hsame, hq⟩ := run_pure_eq_some.1 hrest
        exact ⟨(Prod.mk.inj hsame).2, hq⟩
    obtain ⟨rfl, rfl⟩ := hreturn
    have hscope : (plan.scope path v).resolver.DistinctFields := hdistinct
    exact (Tags.uses_applyAll hscope hr rfl hdefaults).supplies

include hfilters

/-- All methods of the path item are filled from the same annotations. -/
theorem supplies_configureOperation (hconfig : plan.operationConfig = some config)
    (hrun : (configureOperation plan (plan.scope path v) config op).run r = some (.ok op', s)) :
    Supplies plan.resolver v (plan.ConfigNames v) r s := by
  obtain ⟨⟨item, errors⟩, q, hall, hrest⟩ := run_bind_eq_some.1 hrun
  dsimp only at hrest
  split at hrest
  · obtain ⟨hsame, -⟩ := run_pure_eq_some.1 hrest
    cases hsame
  · next herrors =>
    obtain rfl := not_not.1 herrors
    -- taking the operation out of the path item is no call of the registry
    have hq : q = s := by
      split at hrest
      · exact (run_pure_eq_some.1 hrest).2
      · exact (run_pure_eq_some.1 hrest).2
    subst hq
    rw [hfilters] at hall
    refine Supplies.mono ?_ fun key hkey => ⟨config, path, hconfig, hkey⟩
    -- the chain has one filter, so it is all that the registry is used by
    obtain ⟨_, q', hcommon, hnone⟩ := Step.run_of_chain_cons hall
    obtain ⟨-, rfl⟩ := run_pure_eq_some.1 hnone
    simp only [Tags.commonAnnotationFilter] at hcommon
    split at hcommon
    · obtain ⟨-, rfl⟩ := run_pure_eq_some.1 hcommon
      exact .refl hr
    · exact .chain (fun _ _ _ _ _ hr => supplies_fillOperation hdistinct hr) hr hcommon

/-! ## Building

A component is in a variant because a type was resolved for it, and types are resolved for tags.
Along a run it is kept, for each variant, from where its components are used (`Covered`), and
building adds the names of the unit and those of the configuration. -/

/-- An operation that is built refers to all that its unit names. -/
theorem uses_buildOperation
    (hrun : (buildOperation plan unit path method v).run r = some (.ok op, s)) :
    (∀ key, Tags.NamedBy (Tags.typedTags path unit) key → op.Refers key) ∧
      Supplies plan.resolver v
        (fun key => Tags.NamedBy (Tags.typedTags path unit) key ∨ plan.ConfigNames v key) r s := by
  obtain ⟨⟨op₁, errors⟩, q, hunit, hrest⟩ := run_bind_eq_some.1 hrun
  dsimp only at hrest
  split at hrest
  · obtain ⟨hsame, -⟩ := run_pure_eq_some.1 hrest
    cases hsame
  · next herrors =>
    obtain rfl := not_not.1 herrors
    rw [hfilters] at hunit
    have hscope : (plan.scope path v).resolver.DistinctFields := hdistinct
    have hused := Tags.uses_applyAll hscope hr rfl hunit
    -- what the unit names is named in either case
    have hunitNames := hused.supplies.mono fun key hkey =>
      (.inl hkey : Tags.NamedBy (Tags.typedTags path unit) key ∨ plan.ConfigNames v key)
    cases hconfig : plan.operationConfig with
    | none =>
      rw [hconfig] at hrest
      obtain ⟨hsame, rfl⟩ := run_pure_eq_some.1 hrest
      cases hsame
      exact ⟨fun key hkey => hused.refers key (.inr hkey), hunitNames⟩
    | some config =>
      rw [hconfig] at hrest
      -- filling keeps the references, and adds what the configuration names
      have hkept := configureOperation_keeps hfilters _ config op₁ _ _ _ hrest op rfl
      have hmore :=
        supplies_configureOperation hfilters hdistinct hused.supplies.valid hconfig hrest
      exact ⟨fun key hkey => (hused.refers key (.inr hkey)).of_keptIn hkept,
        hunitNames.trans (hmore.mono fun _ => .inr)⟩

/-- What has been built for the variants without an error. The induction is on the variants;
building for the one leaves the others alone. -/
theorem uses_buildVariants {variants : List Variant} {built : Built}
    (hrun : (buildVariants plan unit path method variants).run r = some (built, s))
    (herrors : built.errors = []) :
    built.operations.map Prod.fst = variants ∧
      (∀ p ∈ built.operations, ∀ key, Tags.NamedBy (Tags.typedTags path unit) key →
        p.2.Refers key) ∧
      ∀ w roots, Covered r w roots → Covered s w fun root => roots root ∨
        (w ∈ variants ∧ Tags.NamedBy (Tags.typedTags path unit) root) ∨
          plan.ConfigNames w root := by
  induction variants generalizing r built with
  | nil =>
    cases hrun
    exact ⟨rfl, fun p hp => (nomatch hp), fun w roots h => h.weaken fun _ => .inl⟩
  | cons v rest ih =>
    obtain ⟨result, q, later, hfirst, hlater, rfl⟩ := run_buildVariants_cons.1 hrun
    cases result with
    | error errors =>
      obtain ⟨hnil, -⟩ := List.append_eq_nil_iff.1 herrors
      exact absurd hnil (ne_nil_of_buildOperation hfirst)
    | ok op =>
      obtain ⟨hrefers, hsupplies⟩ := uses_buildOperation hfilters hdistinct hr hfirst
      obtain ⟨hvariants, hrefers', hcovered⟩ := ih hsupplies.valid hlater herrors
      refine ⟨congrArg (v :: ·) hvariants, fun p hp => ?_, fun w roots h => ?_⟩
      · rcases List.mem_cons.1 hp with rfl | hp
        · exact fun key hkey => (hrefers key hkey).describeResponses
        · exact hrefers' p hp
      · by_cases hw : w = v
        · subst hw
          refine (hcovered w _ (hsupplies.covered roots h)).weaken fun root hroot => ?_
          -- from before, from this build, or from those of the rest
          rcases hroot with (hroot | hroot | hroot) | ⟨-, hroot⟩ | hroot
          · exact .inl hroot
          · exact .inr (.inl ⟨List.mem_cons_self, hroot⟩)
          · exact .inr (.inr hroot)
          · exact .inr (.inl ⟨List.mem_cons_self, hroot⟩)
          · exact .inr (.inr hroot)
        · have hq : Covered q w roots := h.congr (componentsOf_buildOperation hfilters hw hfirst)
          refine (hcovered w roots hq).weaken fun root => .imp_right (.imp_left ?_)
          exact fun hroot => ⟨List.mem_cons_of_mem _ hroot.1, hroot.2⟩

end Build

/-! ## Runs

Between units the roots of a variant are the operations of its document. A unit that is committed
turns what its tags name into references of an operation; one that is rejected leaves its variants
as they were. -/

/-- An operation of the document refers to the component of the key. -/
def Document.Refers (d : Document) (key : String) : Prop :=
  ∃ path method op, d.operation? path method = some op ∧ op.Refers key

/-- Where the use of a variant's components begins: at an operation, or at the configuration. -/
def Run.Roots (plan : Plan) (run : Run) (v : Variant) (root : String) : Prop :=
  (∃ d, run.documents.get? v = some d ∧ d.Refers root) ∨ plan.ConfigNames v root

/-- What holds between two units of a run. -/
def RunCovered (plan : Plan) (run : Run) : Prop :=
  ∀ v, Covered run.registry v (run.Roots plan v)

section Runs

variable {plan : Plan} {run run' : Run} {unit : Element} {o : Outcome}

/-- An operation that is added replaces none, as the endpoint was free. -/
theorem Document.Refers.addOperation {d : Document} {path : String} {op : Operation} {key : String}
    (h : d.Refers key) (hfree : d.operation? path op.method = none) :
    (d.addOperation path op).Refers key := by
  obtain ⟨other, method, op', hop', hkey⟩ := h
  refine ⟨other, method, op', ?_, hkey⟩
  rw [operation?_addOperation, if_neg, hop']
  rintro ⟨rfl, rfl⟩
  cases hfree.symm.trans hop'

/-- A rejected unit takes back what it brought; a committed one adds an operation for it. -/
theorem RunCovered.processed (hfilters : plan.filters = FilterSet.standard)
    (hdistinct : plan.resolver.DistinctFields) (hvalid : RunRefersTo plan run)
    (h : RunCovered plan run) (hp : Processed plan run unit o run') : RunCovered plan run' := by
  cases hp with
  | unnamed => exact h
  | rejected => exact fun v => (h v).congr rfl
  | committed path method built registry message _ hbuilt herrors hfree =>
    obtain ⟨hvariants, hrefers, hcovered⟩ :=
      uses_buildVariants hfilters hdistinct hvalid.valid hbuilt herrors
    have hagrees := Comparison.Agrees.buildVariants (C := .self plan.resolver) hfilters unit path
      method (variantsForUnit unit plan.categorizers)
    obtain ⟨-, -, hsketch⟩ := hagrees.single (d := plan.depth) rfl hvalid.valid trivial hbuilt
    intro v
    unfold Run.Roots
    rw [registry_commitAll, get?_documents_commitAll nodup_firstOfEachVariant]
    refine (hcovered v _ (h v)).weaken fun root hroot => ?_
    cases hfind : Entries.find? v (firstOfEachVariant built.operations) with
    | none =>
      -- nothing was built for this variant, so only the configuration may have added to it
      have hv : v ∉ variantsForUnit unit plan.categorizers := by
        rw [← hvariants, ← mem_keys_firstOfEachVariant, ← Entries.find?_eq_none_iff]
        exact hfind
      rcases hroot with hroot | ⟨hmem, -⟩ | hroot
      · exact hroot
      · exact absurd hmem hv
      · exact .inr hroot
    | some op =>
      have hmem := mem_of_mem_firstOfEachVariant (Entries.mem_of_find?_eq_some hfind)
      have hmethod : op.method = method := (hsketch _ hmem).same.2
      -- the new operation takes the place of no other one
      have hnone : ((run.documents.get? v).getD {}).operation? path op.method = none := by
        have htaken := duplicateErrors_eq_nil.1 hfree v (List.mem_map_of_mem hmem)
        rw [hmethod]
        cases hd : run.documents.get? v with
        | none => rfl
        | some d =>
          rw [isTaken, hd] at htaken
          exact Option.not_isSome_iff_eq_none.1 (Bool.eq_false_iff.1 htaken)
      rcases hroot with (⟨d, hd, hroot⟩ | hroot) | ⟨-, hroot⟩ | hroot
      · rw [hd] at hnone ⊢
        exact .inl ⟨_, rfl, hroot.addOperation hnone⟩
      · exact .inr hroot
      · refine .inl ⟨_, rfl, path, op.method, op, ?_, hrefers _ hmem root hroot⟩
        rw [Document.operation?_addOperation, if_pos ⟨rfl, rfl⟩]
      · exact .inr hroot

/-- Every component of a generated document is used from an operation of it, or from a type that the
annotations of the configuration name. -/
theorem used_of_generate {settings : Settings} {resolver : Resolver} {depth : Nat}
    {config : Option Element} {annotations : Element} {result : GenerationResult}
    (hdistinct : resolver.DistinctFields)
    (hrun : (Plan.ofConfig .standard settings resolver depth config).generate annotations =
      some result) :
    ∀ v d, result.documents.get? v = some d → ∀ key, d.components.contains key = true →
      Used d.components.get? (fun root => d.Refers root ∨
        (Plan.ofConfig .standard settings resolver depth config).ConfigNames v root) key := by
  intro v d hd key hkey
  by_cases hunits : annotations.operations = []
  · rw [documents_of_no_units hunits hrun] at hd
    cases hd
  · obtain ⟨outcomes, run, hunits, rfl⟩ := exists_run_of_generate rfl hunits hrun
    rw [KeyMap.get?_mapValues] at hd
    obtain ⟨d', hd', rfl⟩ := Option.map_eq_some_iff.1 hd
    have hholds := holds_of_processUnits
      (fun _ run => RunRefersTo (Plan.ofConfig .standard settings resolver depth config) run ∧
        RunCovered (Plan.ofConfig .standard settings resolver depth config) run)
      (fun h hp => ⟨h.1.processed rfl hp, h.2.processed rfl hdistinct h.1 hp⟩)
      ⟨.start, fun _ => .empty⟩ hunits
    -- a document is finished with the components of its variant
    have hget : (Plan.finished (.ofConfig .standard settings resolver depth config) run v
        d').components.get? = (run.registry.componentsOf v).get? :=
      funext (get?_components_finished (hholds.1.documents v d' hd').1)
    rw [KeyMap.contains_iff] at hkey
    rw [hget] at hkey ⊢
    refine (hholds.2 v key hkey).mono (fun root hroot => hroot.imp_left ?_) (.refl _)
    rintro ⟨d'', hd'', hroot⟩
    cases hd'.symm.trans hd''
    exact hroot

end Runs

/-! ## A service

The component that the only operation refers to is in the document, so the theorem has something to
say about it. -/

theorem distinctFields_people : people.DistinctFields := by
  intro name shape h
  unfold people at h
  split at h
  · cases h
    show ["name", "manager"].Nodup
    decide
  · cases h

/-- The parameter of the only operation refers to the person. -/
theorem contains_person {result : GenerationResult} {d : Document}
    (hrun : staffPlan.generate partnerService = some result)
    (hd : result.documents.get? .default = some d)
    (hop : d.operation? "/a" .get = some (personOperation "/a" .get).describeResponses) :
    d.components.contains "Person" = true := by
  have hne : partnerService.operations ≠ [] := operations_partnerService ▸ List.cons_ne_nil _ _
  obtain ⟨outcomes, run, hunits, rfl⟩ := exists_run_of_generate rfl hne hrun
  rw [KeyMap.get?_mapValues] at hd
  obtain ⟨d', hd', rfl⟩ := Option.map_eq_some_iff.1 hd
  have hholds := holds_of_processUnits (fun _ => RunRefersTo staffPlan)
    (fun h hp => h.processed rfl hp) .start hunits
  have hrefers : (personOperation "/a" .get).Refers "Person" :=
    .addParameter rfl (.inr (List.mem_singleton_self _))
  exact ((hholds.finished hd').operations _ _ _ hop).of_refers hrefers.describeResponses

theorem used_partnerService : ∃ result d, people.DistinctFields ∧
    staffPlan.generate partnerService = some result ∧ result.documents.get? .default = some d ∧
      d.components.contains "Person" = true ∧ Used d.components.get? (fun root => d.Refers root ∨
        staffPlan.ConfigNames .default root) "Person" := by
  obtain ⟨result, d, hrun, hd, hop⟩ := document_partnerService
  have hperson := contains_person hrun hd hop
  exact ⟨result, d, distinctFields_people, hrun, hd, hperson,
    used_of_generate distinctFields_people hrun .default d hd "Person" hperson⟩

/-! ## A component without a use

The unit has a response without content, so it keeps that one; the response of the configuration is
dropped, but its type has been resolved by then. -/

def doneResponse : Element :=
  (⟨"response", ∅, [], some "Done"⟩ : Element).withAttribute "code" "200"

def doneUnit : Element :=
  ⟨"operation", ∅, [.ofText "url" "/a", .ofText "verb" "get", doneResponse], none⟩

/-- The response of the only operation has no content. -/
def doneService : Element := ⟨"doc", ∅, [doneUnit], none⟩

/-- The operation as it is committed: the configuration has a response of the same code. -/
def doneOperation (media : Option MediaType) : Operation :=
  let op := (Tags.addTexts doneUnit (.new "/a" .get)).describedBy doneResponse none
  (op.fillUnsetFrom (readerDefaults op media)).describeResponses

theorem not_refers_doneOperation (media : Option MediaType) (key : String) :
    ¬ (doneOperation media).Refers key := by
  intro h
  cases h with
  | parameter p hp =>
    have hnone : (doneOperation media).parameters = [] := by rfl
    rw [hnone] at hp
    cases hp
  | requestBody body hb =>
    have hnone : (doneOperation media).requestBody = none := by rfl
    rw [hnone] at hb
    cases hb
  | response code r hr h =>
    let op := (Tags.addTexts doneUnit (.new "/a" .get)).describedBy doneResponse none
    have hunit : op.responses = (∅ : KeyMap String Response).insert "200" ⟨"Done", ∅⟩ := by rfl
    have hdefaults : (readerDefaults op media).responses = (∅ : KeyMap String Response).insert "200"
        (Tags.describeResponse {} (personResponse "Bob") media) := by rfl
    -- both sides have a response 200 and no other, and that of the unit keeps its content
    obtain ⟨filled, hfilled, rfl⟩ :=
      Option.map_eq_some_iff.1 ((KeyMap.get?_mapValues _ _ _).symm.trans hr)
    rw [Operation.get?_responses_fillUnsetFrom, hunit, hdefaults, KeyMap.get?_insert,
      KeyMap.get?_insert] at hfilled
    split at hfilled
    · cases hfilled
      exact h.not_empty
    · cases hfilled

theorem buildVariants_done : ∃ media s,
    (buildVariants readerPlan doneUnit "/a" .get [.default]).run {} =
      some (⟨[(.default, doneOperation media)], []⟩, s) ∧ s.has .default "Person" := by
  have hmedia : (Tags.mediaOf (readerPlan.scope "/a" .default) doneResponse).run {} =
      some (.ok none, {}) := by rfl
  have hunit :=
    Tags.applyAll_of_response doneUnit (.new "/a" .get) (by rfl) (by rfl) (by decide +kernel) hmedia
  have hplain := buildOperation_of_applyAll readerPlan.unconfigured rfl hunit
  obtain ⟨media, s, hbuilt, known, hknown, -⟩ := buildOperation_readerPlan .empty hplain
  refine ⟨media, s, ?_, known, hknown⟩
  unfold buildVariants
  rw [run_bind_of_run hbuilt]
  rfl

/-- The person of the configuration is in the document, and nothing there refers to it. -/
theorem component_without_use : ∃ result d, readerPlan.generate doneService = some result ∧
    result.documents.get? .default = some d ∧ d.components.contains "Person" = true ∧
      ¬ Used d.components.get? d.Refers "Person" := by
  have hunits : doneService.operations = [doneUnit] := by decide +kernel
  have hvariants : variantsForUnit doneUnit readerPlan.categorizers = [.default] := by
    decide +kernel
  have hof : Endpoint.of? doneUnit = some ("/a", .get) := by decide +kernel
  obtain ⟨media, s, hbuilt, hhas⟩ := buildVariants_done
  have hunit : processUnit readerPlan {} doneUnit = _ := processUnit_of_endpoint hof
  rw [addUnit_eq, hvariants, hbuilt, Option.map_some] at hunit
  have hrun : processUnits readerPlan [doneUnit] {} = some ([_], _) :=
    processUnits_cons.2 ⟨_, _, [], hunit, rfl, rfl⟩
  rw [← hunits] at hrun
  have hgenerate := generate_of_run rfl (hunits ▸ List.cons_ne_nil _ _) hrun
  let d : Document := ({} : Document).addOperation "/a" (doneOperation media)
  refine ⟨_, readerPlan.finished _ .default d, hgenerate, (KeyMap.get?_mapValues _ _ _).trans rfl,
    ?_, ?_⟩
  · rw [KeyMap.contains_iff, get?_components_finished rfl]
    exact hhas
  -- the only operation refers to nothing
  · rintro ⟨root, ⟨path, method, op, hop, hkey⟩, -⟩
    have hop : d.operation? path method = some op := hop
    rw [Document.operation?_addOperation] at hop
    split at hop
    · cases hop
      exact not_refers_doneOperation media root hkey
    · cases hop

end EndpointDocs
