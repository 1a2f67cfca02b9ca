import EndpointDocs.Proofs.Generation.Configuration
import EndpointDocs.Proofs.Generation.Independence
import EndpointDocs.Proofs.Operation.WellFormed

/-!
# Operations of documents are well formed

Each tag of a unit adds something well formed to an operation, or nothing. So the standard filters
lead from a well-formed operation to a well-formed one of the same endpoint
(`Operation.KeepsForm`), and so do the annotations of the configuration, which are read into an
operation of their own first. What is committed has its responses described, and finishing a
document leaves its operations alone (`published_of_generate`).

The registry plays no part here: a step is followed with `Answers`, whatever the registry is, and
the schemas that it answers may be any.
-/

namespace EndpointDocs

open Registry Resolving

/-- The other operation has the same endpoint and is well formed if the first one is. -/
structure Operation.KeepsForm (op other : Operation) : Prop where
  same : other.SameEndpoint op
  wellFormed : op.WellFormed → other.WellFormed

/-- Nothing is changed. -/
theorem Operation.KeepsForm.refl (op : Operation) : op.KeepsForm op := ⟨⟨rfl, rfl⟩, fun h => h⟩

/-- One filter after the other. -/
theorem Operation.KeepsForm.trans {op other last : Operation} (h : op.KeepsForm other)
    (h' : other.KeepsForm last) : op.KeepsForm last :=
  ⟨h'.same.trans h.same, fun hop => h'.wellFormed (h.wellFormed hop)⟩

namespace Tags

variable (scope : Scope)

/-! ## Texts

A tag of an operation is trimmed and not empty, and none is twice in the list. -/

theorem trim_trimmedAttribute? {tag : Element} {key value : String}
    (h : tag.trimmedAttribute? key = some value) : Text.trim value = value := by
  obtain ⟨text, -, rfl⟩ := Option.map_eq_some_iff.1 h
  exact Text.trim_trim text

theorem trim_nameOf (tag : Element) : Text.trim (nameOf tag) = nameOf tag := by
  unfold nameOf
  cases h : tag.trimmedAttribute? "name" with
  | none => rfl
  | some name => exact trim_trimmedAttribute? h

theorem ne_empty_of_nonEmptyText? {tag : Element} {text : String}
    (h : tag.nonEmptyText? = some text) : text ≠ "" := by
  unfold Element.nonEmptyText? at h
  split at h
  · cases h
  · next hne =>
    cases h
    exact hne

/-- A known tag is left out, so the tags stay distinct. -/
theorem keepsForm_addTag (op : Operation) {tag : String} (htag : tag ≠ "") :
    op.KeepsForm (addTag op tag) := by
  unfold addTag
  split
  · exact .refl op
  · next hnew =>
    refine ⟨⟨rfl, rfl⟩, fun h => h.withTags ?_ fun other hother => ?_⟩
    · rw [List.nodup_append_comm]
      exact List.nodup_cons.2 ⟨hnew, h.distinctTags⟩
    · rcases List.mem_append.1 hother with hother | hother
      · exact h.tags other hother
      · exact List.mem_singleton.1 hother ▸ htag

/-- The induction is on the texts of the groups, all of which say something. -/
theorem keepsForm_addTags (unit : Element) (op : Operation) :
    op.KeepsForm (addTags unit op) := by
  unfold addTags
  have htags : ∀ tag ∈ (unit.childrenNamed "group").filterMap Element.nonEmptyText?, tag ≠ "" := by
    intro tag htag
    obtain ⟨group, -, hgroup⟩ := List.mem_filterMap.1 htag
    exact ne_empty_of_nonEmptyText? hgroup
  revert htags
  generalize (unit.childrenNamed "group").filterMap Element.nonEmptyText? = tags
  induction tags generalizing op with
  | nil => exact fun _ => .refl op
  | cons tag rest ih =>
    intro htags
    obtain ⟨htag, hrest⟩ := List.forall_mem_cons.1 htags
    exact (keepsForm_addTag op htag).trans (ih (addTag op tag) hrest)

/-! ## Parameters

That a parameter is named, and required if it stands in the path, is checked or filled in before it
is added. That no name and location is there twice is the check of `addParameter`. -/

/-- A parameter without a name has no location, so it is not made. -/
theorem wellFormed_parameterOf {path : String} {param : Element} {location : ParameterLocation}
    (h : locationOf path param = .ok location) (schema : Option Schema) :
    (parameterOf param location schema).WellFormed where
  named := by
    unfold locationOf at h
    split at h
    · cases h
    · next hname => exact hname
  trimmed := trim_nameOf param
  filled hpath := by
    have hlocation : location = .path := hpath
    subst hlocation
    rfl

/-- An error leaves the operation as it was. -/
theorem addParameter_keepsForm (param : Element) (op : Operation) :
    Answers (addParameter scope param op) fun found => op.KeepsForm found.1 := by
  unfold addParameter
  cases hlocation : locationOf scope.path param with
  | error fault => exact .pure (.refl op)
  | ok location =>
    dsimp only
    split
    · exact .pure (.refl op)
    · refine .bind (Q := fun _ => True) (fun _ _ _ _ => trivial) fun answer _ => ?_
      cases answer with
      | error e => exact .pure (.refl op)
      | ok schema =>
        exact .pure ⟨Operation.sameEndpoint_addParameter op _,
          fun h => h.addParameter (wellFormed_parameterOf hlocation schema)⟩

/-! ## Request bodies and responses

A body is there only with media, and a response only under a status code. Neither has to be looked
at further: more media do not spoil it. -/

/-- The body has the media of the tag at least. -/
theorem wellFormed_describeBody (body : RequestBody) (param : Element) (media : MediaType) :
    (describeBody body param media).WellFormed where
  content := ⟨mediaTypeName param, _, (KeyMap.get?_alter _ _ _ _).trans (if_pos rfl)⟩
  flagged := by
    unfold describeBody
    cases body.required with
    | none => exact ⟨_, rfl⟩
    | some known => exact ⟨known, rfl⟩

/-- A tag without a type makes no body. -/
theorem addBody_keepsForm (param : Element) (op : Operation) :
    Answers (addBody scope param op) fun found => op.KeepsForm found.1 := by
  refine .bind (Q := fun _ => True) (fun _ _ _ _ => trivial) fun answer _ => ?_
  rcases answer with e | (- | media)
  · exact .pure (.refl op)
  · exact .pure (.refl op)
  · exact .pure ⟨⟨rfl, rfl⟩, fun h => h.withBody (wellFormed_describeBody _ _ _)⟩

/-- The first digit bounds the number. -/
theorem isResponseCode_of_isStatusCode {code : String} (h : isStatusCode code = true) :
    IsResponseCode code := by
  rcases Bool.or_eq_true_iff.1 h with hdefault | hnumber
  · exact .inl (beq_iff_eq.1 hdefault)
  · unfold isStatusNumber at hnumber
    split at hnumber
    · next a b c hcode =>
      -- the first digit is from 1 to 5, and the others are any digits
      simp only [Bool.and_eq_true, decide_eq_true_eq] at hnumber
      obtain ⟨⟨⟨hlow, hhigh⟩, hb⟩, hc⟩ := hnumber
      have hlow' : 49 ≤ a.toNat := UInt32.le_iff_toNat_le.1 hlow
      have hhigh' : a.toNat ≤ 53 := UInt32.le_iff_toNat_le.1 hhigh
      have ha : a.isDigit = true :=
        Text.isDigit_iff.2 ⟨Char.le_trans (by decide) hlow, Char.le_trans hhigh (by decide)⟩
      have hb' := Text.digitValue_le hb
      have hc' := Text.digitValue_le hc
      refine .inr ⟨a, b, c, hcode, ⟨ha, hb, hc⟩, ?_⟩
      rw [Text.digitValue_eq a]
      omega
    · cases hnumber

/-- The code is checked before anything is read. -/
theorem addResponse_keepsForm (tag : Element) (op : Operation) :
    Answers (addResponse scope tag op) fun found => op.KeepsForm found.1 := by
  unfold addResponse
  dsimp only
  split
  · next hcode =>
    refine .bind (Q := fun _ => True) (fun _ _ _ _ => trivial) fun answer _ => ?_
    cases answer with
    | error e => exact .pure (.refl op)
    | ok media =>
      exact .pure ⟨⟨rfl, rfl⟩, fun h => h.alterResponse (isResponseCode_of_isStatusCode hcode) _⟩
  · exact .pure (.refl op)

/-! ## Filters

The first three filters only set texts; the others are chains over the tags of a kind. -/

theorem standardFilter_keepsForm {f : OperationFilter} (hf : f ∈ FilterSet.standard.operation)
    (unit : Element) (op : Operation) :
    Answers (f.apply scope unit op) fun found => op.KeepsForm found.1 := by
  simp only [FilterSet.standard, List.mem_cons, List.not_mem_nil, or_false] at hf
  rcases hf with rfl | rfl | rfl | rfl | rfl | rfl
  · exact .pure ⟨⟨rfl, rfl⟩, fun h => h.texts _ _⟩
  · exact .pure ⟨⟨rfl, rfl⟩, fun h => h.texts _ _⟩
  · exact .pure (keepsForm_addTags unit op)
  · exact .chain .refl .trans (fun param _ => addParameter_keepsForm scope param) op
  · exact .chain .refl .trans (fun param _ => addBody_keepsForm scope param) op
  · exact .chain .refl .trans (fun tag _ => addResponse_keepsForm scope tag) op

theorem applyAll_keepsForm (unit : Element) (op : Operation) :
    Answers (OperationFilter.applyAll FilterSet.standard.operation scope unit op)
      fun found => op.KeepsForm found.1 :=
  .chain .refl .trans (fun _ hf => standardFilter_keepsForm scope hf unit) op

end Tags

/-! ## Building

The operation of a unit begins bare, which is well formed. What is built for a variant is given
descriptions where a response has none, and with these it can be published. -/

section Build

variable {plan : Plan} {unit : Element} {path : String} {method : Method} {v : Variant}
variable (hfilters : plan.filters = FilterSet.standard)

include hfilters

/-- The operation read from the configuration is well formed as well, and so is the filled one. -/
theorem configureOperation_keepsForm (scope : Scope) (config : Element) (op : Operation) :
    Answers (configureOperation plan scope config op) fun result =>
      ∀ op', result = .ok op' → op.KeepsForm op' := by
  refine configureOperation_answers .refl .trans hfilters (fun op method => ?_) op
  intro r found s hrun
  have hdefaults := Tags.applyAll_keepsForm scope _ _ r found s hrun
  exact ⟨op.sameEndpoint_fillUnsetFrom found.1,
    fun hop => hop.fillUnsetFrom (hdefaults.wellFormed (.bare _ _))⟩

/-- Both parts keep the form: the filters, and the annotations of the configuration. -/
theorem buildOperation_keepsForm :
    Answers (buildOperation plan unit path method v) fun result =>
      ∀ op, result = .ok op → (Operation.new path method).KeepsForm op := by
  unfold buildOperation
  rw [hfilters]
  refine .bind (Tags.applyAll_keepsForm _ unit (.new path method)) fun found hfound => ?_
  obtain ⟨op, errors⟩ := found
  dsimp only
  split
  · exact .pure fun op' h => nomatch h
  · -- without a configuration the operation of the filters is the result
    cases plan.operationConfig with
    | none =>
      refine .pure fun op' h => ?_
      cases h
      exact hfound
    | some config =>
      -- the annotations of the configuration start from it, so the two forms compose
      intro r result s hrun op' hresult
      exact hfound.trans
        (configureOperation_keepsForm hfilters _ config op r result s hrun op' hresult)

/-- What is built for the variants can be published. -/
theorem buildVariants_published (variants : List Variant) :
    Answers (buildVariants plan unit path method variants) fun built =>
      ∀ p ∈ built.operations, p.2.Published path method := by
  induction variants with
  | nil => exact .pure fun p hp => nomatch hp
  | cons v rest ih =>
    refine .bind (buildOperation_keepsForm hfilters) fun result hresult =>
      .bind ih fun later hlater => ?_
    cases result with
    | error errors => exact .pure hlater
    | ok op =>
      -- what is built for the first variant starts from the bare operation
      have hop := hresult op rfl
      refine .pure fun p hp => ?_
      rcases List.mem_cons.1 hp with rfl | hp
      · exact (hop.wellFormed (.bare _ _)).published hop.same.1 hop.same.2
      · exact hlater p hp

/-! ## Runs

Only a commit changes documents, and it adds what was built. An operation that was there has been
published before. -/

/-- Every operation of a document is published under its path and method. -/
def Document.Publishes (d : Document) : Prop :=
  ∀ path method op, d.operation? path method = some op → op.Published path method

omit hfilters in
theorem Document.Publishes.addOperation {d : Document} {op : Operation} (h : d.Publishes)
    (hop : op.Published path method) : (d.addOperation path op).Publishes := by
  intro other method' op' hop'
  rw [operation?_addOperation] at hop'
  split at hop'
  · next hsame =>
    obtain ⟨rfl, rfl⟩ := hsame
    cases hop'
    exact hop.method ▸ hop
  · exact h other method' op' hop'

/-- A committed unit adds operations that can be published, and any other unit adds none. -/
theorem Processed.publishes {run run' : Run} {o : Outcome} (hp : Processed plan run unit o run')
    (h : ∀ v d, run.documents.get? v = some d → d.Publishes) :
    ∀ v d, run'.documents.get? v = some d → d.Publishes := by
  cases hp with
  | unnamed => exact h
  | rejected => exact h
  | committed path method built registry message _ hbuilt =>
    intro v d hd
    rw [get?_documents_commitAll nodup_firstOfEachVariant] at hd
    -- a document gets one operation at most, and is a new one otherwise
    cases hfind : Entries.find? v (firstOfEachVariant built.operations) with
    | none =>
      rw [hfind] at hd
      exact h v d hd
    | some op =>
      rw [hfind] at hd
      cases hd
      have hmem := mem_of_mem_firstOfEachVariant (Entries.mem_of_find?_eq_some hfind)
      have hop := buildVariants_published hfilters _ _ _ _ hbuilt _ hmem
      refine Document.Publishes.addOperation ?_ hop
      cases hv : run.documents.get? v with
      | none => exact fun path method op hop => nomatch hop
      | some d => exact h v d hv

end Build

/-- Every operation of every generated document is well formed, with the id and the method of its
place and a description of each response. -/
theorem published_of_generate {settings : Settings} {resolver : Resolver} {depth : Nat}
    {config : Option Element} {annotations : Element} {result : GenerationResult}
    (hrun : (Plan.ofConfig .standard settings resolver depth config).generate annotations =
      some result) :
    ∀ v d, result.documents.get? v = some d → d.Publishes := by
  intro v d hd
  -- without units there are no documents
  by_cases hunits : annotations.operations = []
  · unfold Plan.generate at hrun
    rw [hunits] at hrun
    cases hrun
    cases hd
  · obtain ⟨outcomes, run, hunits, rfl⟩ := exists_run_of_generate rfl hunits hrun
    rw [KeyMap.get?_mapValues] at hd
    obtain ⟨d', hd', rfl⟩ := Option.map_eq_some_iff.1 hd
    have hpublishes := holds_of_processUnits
      (fun _ run => ∀ v d, run.documents.get? v = some d → d.Publishes)
      (fun h hp => hp.publishes rfl h) (fun v d hd => by cases hd) hunits
    exact hpublishes v d' hd'

/-- The operation of the partner is in the document that all get. -/
theorem document_partnerService : ∃ result d, staffPlan.generate partnerService = some result ∧
    result.documents.get? .default = some d ∧
    d.operation? "/a" .get = some (personOperation "/a" .get).describeResponses := by
  have hunits := operations_partnerService
  have hvariants : variantsForUnit (personUnit "/a" "get" "partners") staffPlan.categorizers =
      [.default, ⟨"audience", "partners"⟩] := by decide +kernel
  have hof : Endpoint.of? (personUnit "/a" "get" "partners") = some ("/a", .get) := by
    decide +kernel
  obtain ⟨r, hbuilt⟩ := buildVariants_person "/a" "get" "partners" "/a" .get
    [.default, ⟨"audience", "partners"⟩]
    (.empty : Valid people TypeExpr.WellNamed ({} : Run).registry)
  have hunit : processUnit staffPlan {} (personUnit "/a" "get" "partners") = _ :=
    processUnit_of_endpoint hof
  rw [addUnit_eq, hvariants, hbuilt, Option.map_some] at hunit
  have hrun : processUnits staffPlan [personUnit "/a" "get" "partners"] {} = some ([_], _) :=
    processUnits_cons.2 ⟨_, _, [], hunit, rfl, rfl⟩
  rw [← hunits] at hrun
  have hgenerate := generate_of_run rfl (hunits ▸ List.cons_ne_nil _ _) hrun
  exact ⟨_, _, hgenerate, (KeyMap.get?_mapValues _ _ _).trans rfl, rfl⟩

/-- The theorem is about an operation that there is. -/
theorem published_partnerService : ∃ result d op,
    staffPlan.generate partnerService = some result ∧ result.documents.get? .default = some d ∧
      d.operation? "/a" .get = some op ∧ op.Published "/a" .get := by
  obtain ⟨result, d, hrun, hd, hop⟩ := document_partnerService
  exact ⟨result, d, _, hrun, hd, hop, published_of_generate hrun .default d hd _ _ _ hop⟩

end EndpointDocs
