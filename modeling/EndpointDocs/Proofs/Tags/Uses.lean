import EndpointDocs.Proofs.Operation.Uses
import EndpointDocs.Proofs.Operation.WellFormed
import EndpointDocs.Proofs.Registry.Uses
import EndpointDocs.Proofs.Tags.Effects

/-!
# What the tags of a unit name

A tag names types (`Tags.Names`). If a unit is read without an error, the operation refers to the
components of all the types that its tags name, and these supply what the variant has got besides
(`Tags.uses_applyAll`). A parameter that is documented twice counts once, and the types of the
second tag are not looked at (`Tags.countedParams`).
-/

namespace EndpointDocs

open Schema Registry Resolving

namespace Tags

/-! ## The types of a tag

Each reader of the types of a tag is followed twice: `Supplies` tells what it puts into the
registry, and a statement on references what it returns. The two are proved together, since both go
by the same cases. -/

/-- One of the texts is a type about the component of the key. -/
def TextsName (texts : List String) (key : String) : Prop :=
  ∃ source ∈ texts, ∃ t, Source.typeExpr? source = some t ∧ t.Names key

/-- The tag names a type about the component of the key. -/
def Names (tag : Element) (key : String) : Prop := TextsName (typeTexts tag) key

variable {scope : Scope} {tag : Element} {key : String} {r s : Registry}
variable (hdistinct : scope.resolver.DistinctFields)
variable (hr : Valid scope.resolver (fun _ => True) r)

include hdistinct hr

/-- The type of a text supplies its own components, and the schema refers to them. -/
theorem supplies_schemaOfText {source : String} {schema : Schema}
    (hrun : (schemaOfText scope source).run r = some (.ok schema, s)) :
    Supplies scope.resolver scope.variant (TextsName [source]) r s ∧
      ∀ key, TextsName [source] key → componentsPrefix ++ key ∈ schema.refs := by
  unfold schemaOfText at hrun
  -- a text that is no type expression is a fault, and no tag of this run had one
  cases ht : Source.typeExpr? source with
  | none =>
    rw [ht] at hrun
    obtain ⟨hsame, -⟩ := run_pure_eq_some.1 hrun
    cases hsame
  | some t =>
    rw [ht] at hrun
    -- the only component that the text names is the one that its type needs
    refine ⟨(Supplies.resolve hdistinct hr hrun).mono fun key hkey => ?_, fun key hkey => ?_⟩
    · exact ⟨source, List.mem_singleton_self source, t, ht, hkey⟩
    · obtain ⟨_, hmem, t', ht', hkey⟩ := hkey
      rw [List.mem_singleton.1 hmem, ht] at ht'
      cases ht'
      exact mem_refs_of_resolve hr hrun hkey

/-- The induction is on the type expressions; the schema so far keeps its references. -/
theorem supplies_widenByTexts {texts : List String} {known schema : Option Schema}
    (hrun : (widenByTexts scope texts known).run r = some (.ok schema, s)) :
    Supplies scope.resolver scope.variant (TextsName texts) r s ∧
      ∀ key, ((∃ k ∈ known, componentsPrefix ++ key ∈ k.refs) ∨ TextsName texts key) →
        ∃ k ∈ schema, componentsPrefix ++ key ∈ k.refs := by
  induction texts generalizing r known with
  | nil =>
    obtain ⟨hsame, rfl⟩ := run_pure_eq_some.1 hrun
    cases hsame
    refine ⟨.refl hr, fun key hkey => hkey.elim id ?_⟩
    rintro ⟨_, hmem, -⟩
    cases hmem
  | cons source rest ih =>
    obtain ⟨answer, q, hfirst, hrest⟩ := run_bind_eq_some.1 hrun
    cases answer with
    | error e =>
      obtain ⟨hsame, -⟩ := run_pure_eq_some.1 hrest
      cases hsame
    | ok first =>
      -- the first text supplies its own types, and the others theirs after it
      obtain ⟨hsupplies, hrefs⟩ := supplies_schemaOfText hdistinct hr hfirst
      obtain ⟨hsupplies', hrefs'⟩ := ih hsupplies.valid hrest
      refine ⟨(hsupplies.mono ?_).trans (hsupplies'.mono ?_), fun key hkey => hrefs' key ?_⟩
      · rintro key ⟨_, hmem, hkey⟩
        exact ⟨source, List.mem_cons_self, List.mem_singleton.1 hmem ▸ hkey⟩
      · rintro key ⟨other, hmem, hkey⟩
        exact ⟨other, List.mem_cons_of_mem _ hmem, hkey⟩
      · rcases hkey with ⟨k, rfl, hk⟩ | ⟨other, hmem, hkey⟩
        · -- widening loses no reference, neither of what was known nor of the new schema
          exact .inl ⟨_, rfl, mem_refs_widen_iff.2 (.inl hk)⟩
        · rcases List.mem_cons.1 hmem with rfl | hmem
          · have hfirst := hrefs key ⟨_, List.mem_singleton_self _, hkey⟩
            refine .inl ⟨_, rfl, ?_⟩
            cases known with
            | none => exact hfirst
            | some k => exact mem_refs_widen_iff.2 (.inr hfirst)
          · exact .inr ⟨other, hmem, hkey⟩

/-- The schema of a tag refers to what the tag names. -/
theorem supplies_schemaOf {schema : Option Schema}
    (hrun : (schemaOf scope tag).run r = some (.ok schema, s)) :
    Supplies scope.resolver scope.variant (Names tag) r s ∧
      ∀ key, Names tag key → ∃ k ∈ schema, componentsPrefix ++ key ∈ k.refs := by
  obtain ⟨hsupplies, hrefs⟩ := supplies_widenByTexts hdistinct hr hrun
  exact ⟨hsupplies, fun key hkey => hrefs key (.inr hkey)⟩

omit hdistinct in
/-- An example is shown by a component that the variant has, or by the schema itself. -/
theorem supplies_showExample {names : String → Prop} {schema shown : Schema} {sample : Json}
    (hhas : schema.RefersTo (r.has scope.variant))
    (hrun : (showExample scope.variant schema sample).run r = some (shown, s)) :
    Supplies scope.resolver scope.variant names r s ∧ shown.refs = schema.refs := by
  obtain ⟨found, q, hset, hshown⟩ := run_bind_eq_some.1 hrun
  -- only the example of a component is stored in the registry
  have hq : Supplies scope.resolver scope.variant names r q := by
    unfold setComponentExample at hset
    cases hkey : schema.refKey? with
    | none =>
      rw [hkey] at hset
      obtain ⟨-, rfl⟩ := run_pure_eq_some.1 hset
      exact .refl hr
    | some key =>
      rw [hkey] at hset
      obtain rfl : (r.injectSample key scope.variant sample).2 = q :=
        congrArg Prod.snd (Option.some.inj hset)
      refine ⟨hr.injectSample, fun roots hroots => ?_⟩
      exact (hroots.injectSample (hhas.refKey? hkey)).weaken fun _ => .inl
  cases found with
  | true =>
    obtain ⟨rfl, rfl⟩ := run_pure_eq_some.1 hshown
    exact ⟨hq, rfl⟩
  | false =>
    obtain ⟨rfl, rfl⟩ := run_pure_eq_some.1 hshown
    exact ⟨hq, refs_with_sample schema _⟩

omit hdistinct in
/-- The media have the references of the schema, whether an example is shown or not. -/
theorem supplies_mediaOfSchema {names : String → Prop} {schema : Schema} {media : MediaType}
    (hhas : schema.RefersTo (r.has scope.variant))
    (hrun : (mediaOfSchema scope.variant tag schema).run r = some (media, s)) :
    Supplies scope.resolver scope.variant names r s ∧ media.schema.refs = schema.refs := by
  cases hfirst : (examplesOf tag).head? with
  | none =>
    simp only [mediaOfSchema, hfirst, pure_bind] at hrun
    obtain ⟨rfl, rfl⟩ := run_pure_eq_some.1 hrun
    exact ⟨.refl hr, rfl⟩
  | some first =>
    simp only [mediaOfSchema, hfirst] at hrun
    obtain ⟨shown, q, hshown, hreturn⟩ := run_bind_eq_some.1 hrun
    obtain ⟨rfl, rfl⟩ := run_pure_eq_some.1 hreturn
    exact supplies_showExample hr hhas hshown

/-- The media of a tag refer to what the tag names. -/
theorem supplies_mediaOf {media : Option MediaType}
    (hrun : (mediaOf scope tag).run r = some (.ok media, s)) :
    Supplies scope.resolver scope.variant (Names tag) r s ∧
      ∀ key, Names tag key → ∃ m ∈ media, componentsPrefix ++ key ∈ m.schema.refs := by
  obtain ⟨answer, q, hschema, hrest⟩ := run_bind_eq_some.1 hrun
  rcases answer with e | schema
  · obtain ⟨hsame, -⟩ := run_pure_eq_some.1 hrest
    cases hsame
  obtain ⟨hsupplies, hrefs⟩ := supplies_schemaOf hdistinct hr hschema
  cases schema with
  | none =>
    obtain ⟨hsame, rfl⟩ := run_pure_eq_some.1 hrest
    cases hsame
    refine ⟨hsupplies, fun key hkey => ?_⟩
    obtain ⟨k, hk, -⟩ := hrefs key hkey
    cases hk
  | some schema =>
    -- the variant has the component that the example is for
    have hagrees := Comparison.Agrees.schemaOf (C := .self scope.resolver) tag
    obtain ⟨-, -, hhas⟩ := hagrees.single (d := scope.depth) rfl hr trivial hschema
    obtain ⟨shown, q', hmedia, hreturn⟩ := run_bind_eq_some.1 hrest
    obtain ⟨hsame, rfl⟩ := run_pure_eq_some.1 hreturn
    cases hsame
    obtain ⟨hshown, hsame⟩ :=
      supplies_mediaOfSchema hsupplies.valid (hhas _ rfl schema rfl) hmedia
    refine ⟨hsupplies.trans hshown, fun key hkey => ⟨shown, rfl, ?_⟩⟩
    obtain ⟨_, ⟨⟩, href⟩ := hrefs key hkey
    exact hsame ▸ href

/-! ## Tags of an operation

`Uses` joins what a list of tags supplies to what the operation refers to afterwards. It composes
along the list (`Uses.append`), so a filter is done with its step for a single tag. -/

omit hdistinct hr

/-- One of the tags names a type about the component of the key. -/
def NamedBy (tags : List Element) (key : String) : Prop := ∃ tag ∈ tags, Names tag key

/-- The operation refers to what the tags name, and that supplies what the variant has got. -/
structure Uses (scope : Scope) (tags : List Element) (op op' : Operation) (r s : Registry) :
    Prop where
  supplies : Supplies scope.resolver scope.variant (NamedBy tags) r s
  refers : ∀ key, op.Refers key ∨ NamedBy tags key → op'.Refers key

variable {tags more : List Element} {op op' op'' : Operation} {q : Registry}

/-- No tags ask for no types. -/
theorem Uses.keep (hr : Valid scope.resolver (fun _ => True) r)
    (h : ∀ key, op.Refers key → op'.Refers key) : Uses scope [] op op' r r := by
  refine ⟨.refl hr, fun key hkey => hkey.elim (h key) ?_⟩
  rintro ⟨_, hmem, -⟩
  cases hmem

/-- The references of the operation in the middle are kept by the second part. -/
theorem Uses.append (h : Uses scope tags op op' r q) (h' : Uses scope more op' op'' q s) :
    Uses scope (tags ++ more) op op'' r s where
  supplies := by
    refine (h.supplies.mono ?_).trans (h'.supplies.mono ?_)
    · exact fun key ⟨tag, ht, hkey⟩ => ⟨tag, List.mem_append_left _ ht, hkey⟩
    · exact fun key ⟨tag, ht, hkey⟩ => ⟨tag, List.mem_append_right _ ht, hkey⟩
  refers key hkey := by
    refine h'.refers key ?_
    rcases hkey with hkey | ⟨tag, ht, hkey⟩
    · exact .inl (h.refers key (.inl hkey))
    · exact (List.mem_append.1 ht).imp (fun ht => h.refers key (.inr ⟨tag, ht, hkey⟩))
        fun ht => ⟨tag, ht, hkey⟩

/-- A single tag, which names its own types only. -/
theorem Uses.single (hsupplies : Supplies scope.resolver scope.variant (Names tag) r s)
    (h : ∀ key, op.Refers key ∨ Names tag key → op'.Refers key) : Uses scope [tag] op op' r s where
  supplies := hsupplies.mono fun _ hkey => ⟨tag, List.mem_singleton_self tag, hkey⟩
  refers key hkey := h key <| hkey.imp_right fun ⟨_, ht, hkey⟩ => List.mem_singleton.1 ht ▸ hkey

/-! ### Parameters

The parameters are the exception: a tag may be passed over, depending on those before it. The list
of tags that count is computed beside the operation, with the names and locations that it has so
far. -/

/-- The tags of parameters that count, besides the known parameters: the first tag of each name and
location. -/
def countedParams (path : String) :
    List (String × ParameterLocation) → List Element → List Element
  | _, [] => []
  | known, param :: rest =>
    match locationOf path param with
    | .error _ => countedParams path known rest
    | .ok location =>
      if (nameOf param, location) ∈ known then countedParams path known rest
      else param :: countedParams path (known ++ [(nameOf param, location)]) rest

include hdistinct

/-- A tag of a known parameter is not looked at. -/
theorem uses_addParameter (hr : Valid scope.resolver (fun _ => True) r)
    (hrun : (addParameter scope tag op).run r = some ((op', []), s)) :
    ∃ location, locationOf scope.path tag = .ok location ∧
      if (nameOf tag, location) ∈ op.parameters.map Parameter.key then op' = op ∧ s = r
      else Uses scope [tag] op op' r s ∧ op'.parameters.map Parameter.key =
        op.parameters.map Parameter.key ++ [(nameOf tag, location)] := by
  obtain ⟨location, hlocation, hadded⟩ := addParameter_of_run hrun
  refine ⟨location, hlocation, ?_⟩
  simp only [← Operation.hasParameter_iff]
  -- a parameter of the same name and place is kept, and the tag is not read
  rcases hadded with ⟨hknown, rfl, rfl⟩ | ⟨hnew, schema, hschema, rfl⟩
  · rw [if_pos hknown]
    exact ⟨rfl, rfl⟩
  · obtain ⟨hsupplies, hrefs⟩ := supplies_schemaOf hdistinct hr hschema
    rw [if_neg (Bool.eq_false_iff.1 hnew)]
    refine ⟨.single hsupplies fun key hkey => .addParameter hnew ?_, ?_⟩
    · -- what the tag refers to is in the schema of the new parameter
      refine hkey.imp_right fun hkey => ?_
      obtain ⟨_, ⟨⟩, href⟩ := hrefs key hkey
      exact href
    · rw [Operation.addParameter_of_new hnew, List.map_append]
      rfl

/-- The induction is on the tags; the known parameters are those of the operation. -/
theorem uses_addParameters {params : List Element} (hr : Valid scope.resolver (fun _ => True) r)
    (hrun : (Step.chain (params.map (addParameter scope)) op).run r = some ((op', []), s)) :
    Uses scope (countedParams scope.path (op.parameters.map Parameter.key) params) op op' r s := by
  induction params generalizing op r with
  | nil =>
    obtain ⟨hsame, rfl⟩ := run_pure_eq_some.1 hrun
    cases hsame
    exact .keep hr fun _ => id
  | cons param rest ih =>
    obtain ⟨op₁, q, hfirst, hrest⟩ := Step.run_of_chain_cons hrun
    obtain ⟨location, hlocation, hadded⟩ := uses_addParameter hdistinct hr hfirst
    rw [countedParams, hlocation]
    dsimp only
    split at hadded
    · -- a known parameter counts no more, and its name and place are no new ones
      next hknown =>
      obtain ⟨rfl, rfl⟩ := hadded
      rw [if_pos hknown]
      exact ih hr hrest
    · next hnew =>
      obtain ⟨hused, hkeys⟩ := hadded
      rw [if_neg hnew, ← hkeys]
      exact hused.append (ih hused.supplies.valid hrest)

/-! ### Bodies and responses

All tags of bodies and responses count, and the two filters differ only in where the media go. -/

omit hdistinct in
/-- The induction is that of the chain; the tags so far are the ones in front. -/
theorem uses_chain {step : Element → Step Operation}
    (hstep : ∀ {tag op op' r s}, Valid scope.resolver (fun _ => True) r →
      (step tag op).run r = some ((op', []), s) → Uses scope [tag] op op' r s)
    (hr : Valid scope.resolver (fun _ => True) r)
    (hrun : (Step.chain (tags.map step) op).run r = some ((op', []), s)) :
    Uses scope tags op op' r s :=
  Step.holds_of_chain (fun seen op₁ q => Uses scope seen op op₁ r q)
    (fun hused hfirst => hused.append (hstep hused.supplies.valid hfirst)) []
    (.keep hr fun _ => id) hrun

/-- An operation that takes up the references of the media of a tag refers to what the tag names. -/
theorem Uses.of_media {media : Option MediaType} (hr : Valid scope.resolver (fun _ => True) r)
    (hrun : (mediaOf scope tag).run r = some (.ok media, s))
    (h : ∀ key, (op.Refers key ∨ ∃ m ∈ media, componentsPrefix ++ key ∈ m.schema.refs) →
      op'.Refers key) : Uses scope [tag] op op' r s := by
  obtain ⟨hsupplies, hrefs⟩ := supplies_mediaOf hdistinct hr hrun
  exact .single hsupplies fun key hkey => h key (hkey.imp_right (hrefs key))

/-- The body keeps the media that it had. -/
theorem uses_addBody (hr : Valid scope.resolver (fun _ => True) r)
    (hrun : (addBody scope tag op).run r = some ((op', []), s)) : Uses scope [tag] op op' r s := by
  obtain ⟨media, hmedia, rfl⟩ := addBody_of_run hrun
  refine .of_media hdistinct hr hmedia fun key hkey => .withBody (hkey.imp_right ?_) ?_
  · rintro ⟨_, ⟨⟩, href⟩
    exact .addMedia (.inr href) _
  · intro known hknown hrefers
    rw [hknown]
    exact .addMedia (.inl hrefers) _

/-- A response without a type is added all the same, and names nothing. -/
theorem uses_addResponse (hr : Valid scope.resolver (fun _ => True) r)
    (hrun : (addResponse scope tag op).run r = some ((op', []), s)) :
    Uses scope [tag] op op' r s := by
  obtain ⟨-, media, hmedia, rfl⟩ := addResponse_of_run hrun
  refine .of_media hdistinct hr hmedia fun key hkey => .alterResponse (hkey.imp_right ?_) ?_
  · rintro ⟨_, rfl, href⟩
    exact .addMedia (.inr href) _
  · intro known hknown hrefers
    cases media with
    | none => exact hrefers
    | some m => exact .addMedia (.inl hrefers) _

/-! ### Units -/

/-- The tags of a unit whose types are looked at. -/
def typedTags (path : String) (unit : Element) : List Element :=
  countedParams path [] ((unit.childrenNamed "param").filter fun p => !isAboutBody p) ++
    bodyTags unit

/-- A unit that is read without an error. -/
theorem uses_applyAll {unit : Element} (hr : Valid scope.resolver (fun _ => True) r)
    (hnone : op.parameters = [])
    (hrun : (OperationFilter.applyAll FilterSet.standard.operation scope unit op).run r =
      some ((op', []), s)) :
    Uses scope (typedTags scope.path unit) op op' r s := by
  obtain ⟨op₁, q₁, op₂, q₂, hparams, hbodies, hresponses⟩ := applyAll_of_run hrun
  -- the texts name no type
  have hkept : Uses scope [] op (addTexts unit op) r r := by
    rw [addTexts_eq]
    exact .keep hr fun key h => h.texts _ _ _
  have hparameters : (addTexts unit op).parameters = [] := by
    rw [addTexts_eq]
    exact hnone
  have hused := uses_addParameters hdistinct hr hparams
  rw [hparameters] at hused
  have hused' := uses_chain (uses_addBody hdistinct) hused.supplies.valid hbodies
  have hused'' := uses_chain (uses_addResponse hdistinct) hused'.supplies.valid hresponses
  exact hkept.append (hused.append (hused'.append hused''))

end Tags

end EndpointDocs
