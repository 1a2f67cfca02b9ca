import EndpointDocs.Proofs.Resolving
import EndpointDocs.Tags.Standard

/-!
# Reading without errors

What a tag does to an operation if it gives no error, and how the tags of a unit follow each other
(`Tags.applyAll_of_run`). The texts come first and ask the registry for nothing; then the
parameters, the bodies and the responses are read, each tag behind the one before it
(`Step.holds_of_chain`).
-/

namespace EndpointDocs

open Resolving

/-! ## Chains -/

namespace Step

variable {α ι : Type} {step : Step α} {rest : List (Step α)} {a b c : α} {r q s : Registry}

/-- A step without errors is followed by the rest of its chain. -/
theorem chain_cons_of_run {errors : List GenerationError} (h : (step a).run r = some ((b, []), q))
    (hrest : (chain rest b).run q = some ((c, errors), s)) :
    (chain (step :: rest) a).run r = some ((c, errors), s) := by
  unfold chain andThen
  rw [run_bind_of_run h]
  show (chain rest b >>= fun x => (Pure.pure (x.1, [] ++ x.2) : Resolving _)).run q = _
  rw [run_bind_of_run hrest]
  rfl

/-- A chain without errors is a step without errors in front of such a chain. -/
theorem run_of_chain_cons (hrun : (chain (step :: rest) a).run r = some ((c, []), s)) :
    ∃ b q, (step a).run r = some ((b, []), q) ∧ (chain rest b).run q = some ((c, []), s) := by
  obtain ⟨⟨b, found⟩, q, hstep, hrest⟩ := run_bind_eq_some.1 hrun
  dsimp only at hrest
  split at hrest
  · next hfatal =>
    obtain ⟨hsame, rfl⟩ := run_pure_eq_some.1 hrest
    cases hsame
    cases hfatal
  · obtain ⟨⟨d, more⟩, q', hmore, hreturn⟩ := run_bind_eq_some.1 hrest
    obtain ⟨hsame, rfl⟩ := run_pure_eq_some.1 hreturn
    obtain ⟨rfl, herrors⟩ := Prod.mk.inj hsame
    obtain ⟨rfl, rfl⟩ := List.append_eq_nil_iff.1 herrors
    exact ⟨b, q, hstep, hmore⟩

/-- A step of a change asks for nothing. -/
theorem run_of_chain_pure {change : α → α}
    (hrun : (chain (.pure change :: rest) a).run r = some ((c, []), s)) :
    (chain rest (change a)).run r = some ((c, []), s) := by
  obtain ⟨_, _, hchange, hrest⟩ := run_of_chain_cons hrun
  obtain ⟨hsame, rfl⟩ := run_pure_eq_some.1 hchange
  cases hsame
  exact hrest

/-- If each item adds to what holds of those before it, the chain does so for all of them. The
induction is on the items that are left. -/
theorem holds_of_chain {items : List ι} {step : ι → Step α} (P : List ι → α → Registry → Prop)
    (hstep : ∀ {seen i a b r s}, P seen a r → (step i a).run r = some ((b, []), s) →
      P (seen ++ [i]) b s)
    (seen : List ι) (h : P seen a r)
    (hrun : (chain (items.map step) a).run r = some ((b, []), s)) : P (seen ++ items) b s := by
  induction items generalizing seen a r with
  | nil =>
    obtain ⟨hsame, rfl⟩ := run_pure_eq_some.1 hrun
    cases hsame
    rw [List.append_nil]
    exact h
  | cons i rest ih =>
    obtain ⟨a', q, hfirst, hrest⟩ := run_of_chain_cons hrun
    have hlast := ih (seen ++ [i]) (hstep h hfirst) hrest
    rwa [List.append_assoc] at hlast

end Step

/-! ## Media

With its schema known a tag has media, whatever the registry holds. The registry changes by the
first example at most, and only if the schema is a component that can hold it. -/

namespace Tags

theorem exists_showExample (variant : Variant) (schema : Schema) (sample : Json) (r : Registry) :
    ∃ shown s, (showExample variant schema sample).run r = some (shown, s) ∧
      (s = r ∨ ∃ key, s = (r.injectSample key variant sample).2) := by
  have hset : ∃ found s, (setComponentExample variant schema sample).run r = some (found, s) ∧
      (s = r ∨ ∃ key, s = (r.injectSample key variant sample).2) := by
    unfold setComponentExample
    cases schema.refKey? with
    | none => exact ⟨false, r, rfl, .inl rfl⟩
    | some key => exact ⟨_, _, rfl, .inr ⟨key, rfl⟩⟩
  obtain ⟨found, s, hrun, hs⟩ := hset
  rw [showExample, run_bind_of_run hrun]
  cases found with
  | true => exact ⟨_, s, rfl, hs⟩
  | false => exact ⟨_, s, rfl, hs⟩

theorem exists_mediaOfSchema (variant : Variant) (tag : Element) (schema : Schema) (r : Registry) :
    ∃ media s, (mediaOfSchema variant tag schema).run r = some (media, s) ∧
      media.examples = firstOfEachKey (examplesOf tag) ∧
      (s = r ∨ ∃ key sample, s = (r.injectSample key variant sample).2) := by
  cases hfirst : (examplesOf tag).head? with
  | none =>
    simp only [mediaOfSchema, hfirst]
    exact ⟨_, r, rfl, rfl, .inl rfl⟩
  | some first =>
    obtain ⟨shown, s, hrun, hs⟩ := exists_showExample variant schema first.2.value r
    simp only [mediaOfSchema, hfirst, run_bind_of_run hrun]
    exact ⟨_, s, rfl, rfl, hs.imp_right fun ⟨key, hkey⟩ => ⟨key, _, hkey⟩⟩

end Tags

/-! ## Tags -/

/-- The operation with a response that is also described by a tag. -/
def Operation.describedBy (op : Operation) (tag : Element) (media : Option MediaType) : Operation :=
  { op with responses := op.responses.alter (Tags.statusCodeOf tag) fun r =>
      Tags.describeResponse (r.getD {}) tag media }

namespace Tags

variable {scope : Scope} {tag : Element} {op op' : Operation} {r s : Registry}

/-- A parameter that is known is not looked at, another one is added with its schema. -/
theorem addParameter_of_run (hrun : (addParameter scope tag op).run r = some ((op', []), s)) :
    ∃ location, locationOf scope.path tag = .ok location ∧
      (op.hasParameter (nameOf tag) location = true ∧ op' = op ∧ s = r ∨
        op.hasParameter (nameOf tag) location = false ∧ ∃ schema,
          (schemaOf scope tag).run r = some (.ok schema, s) ∧
            op' = op.addParameter (parameterOf tag location schema)) := by
  unfold addParameter at hrun
  cases hlocation : locationOf scope.path tag with
  | error fault =>
    rw [hlocation] at hrun
    obtain ⟨hsame, -⟩ := run_pure_eq_some.1 hrun
    cases hsame
  | ok location =>
    simp only [hlocation] at hrun
    refine ⟨location, rfl, ?_⟩
    split at hrun
    · -- a known parameter is passed over, without a look at its type
      next hknown =>
      obtain ⟨hsame, rfl⟩ := run_pure_eq_some.1 hrun
      cases hsame
      exact .inl ⟨hknown, rfl, rfl⟩
    · next hnew =>
      obtain ⟨answer, q, hschema, hadd⟩ := run_bind_eq_some.1 hrun
      cases answer with
      | error e =>
        obtain ⟨hsame, -⟩ := run_pure_eq_some.1 hadd
        cases hsame
      | ok schema =>
        obtain ⟨hsame, rfl⟩ := run_pure_eq_some.1 hadd
        cases hsame
        exact .inr ⟨eq_false_of_ne_true hnew, schema, hschema, rfl⟩

/-- A tag of a body has a type. -/
theorem addBody_of_run (hrun : (addBody scope tag op).run r = some ((op', []), s)) :
    ∃ media, (mediaOf scope tag).run r = some (.ok (some media), s) ∧
      op' = { op with requestBody := some (describeBody (op.requestBody.getD {}) tag media) } := by
  obtain ⟨answer, q, hmedia, hrest⟩ := run_bind_eq_some.1 hrun
  rcases answer with e | (- | media)
  · obtain ⟨hsame, -⟩ := run_pure_eq_some.1 hrest
    cases hsame
  · obtain ⟨hsame, -⟩ := run_pure_eq_some.1 hrest
    cases hsame
  · obtain ⟨hsame, rfl⟩ := run_pure_eq_some.1 hrest
    cases hsame
    exact ⟨media, hmedia, rfl⟩

/-- A tag of a response has a status code, but need not have a type. -/
theorem addResponse_of_run (hrun : (addResponse scope tag op).run r = some ((op', []), s)) :
    isStatusCode (statusCodeOf tag) = true ∧ ∃ media,
      (mediaOf scope tag).run r = some (.ok media, s) ∧ op' = op.describedBy tag media := by
  unfold addResponse at hrun
  dsimp only at hrun
  split at hrun
  · next hcode =>
    obtain ⟨answer, q, hmedia, hrest⟩ := run_bind_eq_some.1 hrun
    cases answer with
    -- only a tag without faults leaves no error behind
    | error e =>
      obtain ⟨hsame, -⟩ := run_pure_eq_some.1 hrest
      cases hsame
    | ok media =>
      obtain ⟨hsame, rfl⟩ := run_pure_eq_some.1 hrest
      cases hsame
      exact ⟨hcode, media, hmedia, rfl⟩
  · obtain ⟨hsame, -⟩ := run_pure_eq_some.1 hrun
    cases hsame

/-! ## Units -/

/-- The texts of a unit. -/
def addTexts (unit : Element) (op : Operation) : Operation :=
  addTags unit (addDescription unit (addSummary unit op))

theorem foldl_addTag (tags : List String) (op : Operation) :
    tags.foldl addTag op = { op with tags := (tags.foldl addTag op).tags } := by
  induction tags generalizing op with
  | nil => rfl
  | cons tag rest ih =>
    rw [List.foldl_cons, ih]
    unfold addTag
    split <;> rfl

theorem addTexts_eq (unit : Element) (op : Operation) : addTexts unit op = { op with
    summary := (addTexts unit op).summary, description := (addTexts unit op).description,
    tags := (addTexts unit op).tags } := by
  unfold addTexts addTags
  rw [foldl_addTag]
  rfl

/-- Behind the texts of a unit its parameters are read, then its bodies and its responses. -/
theorem applyAll_of_run {unit : Element}
    (hrun : (OperationFilter.applyAll FilterSet.standard.operation scope unit op).run r =
      some ((op', []), s)) :
    ∃ op₁ q₁ op₂ q₂,
      (Step.chain (((unit.childrenNamed "param").filter fun p => !isAboutBody p).map
        (addParameter scope)) (addTexts unit op)).run r = some ((op₁, []), q₁) ∧
      (Step.chain (((unit.childrenNamed "param").filter isAboutBody).map
        (addBody scope)) op₁).run q₁ = some ((op₂, []), q₂) ∧
      (Step.chain ((unit.childrenNamed "response").map
        (addResponse scope)) op₂).run q₂ = some ((op', []), s) := by
  -- the filters for the texts cannot go wrong
  have hrun := Step.run_of_chain_pure (Step.run_of_chain_pure (Step.run_of_chain_pure hrun))
  obtain ⟨op₁, q₁, hparams, hrun⟩ := Step.run_of_chain_cons hrun
  obtain ⟨op₂, q₂, hbodies, hrun⟩ := Step.run_of_chain_cons hrun
  obtain ⟨op₃, q₃, hresponses, hrun⟩ := Step.run_of_chain_cons hrun
  obtain ⟨hsame, rfl⟩ := run_pure_eq_some.1 hrun
  cases hsame
  exact ⟨op₁, q₁, op₂, q₂, hparams, hbodies, hresponses⟩

end Tags

end EndpointDocs
